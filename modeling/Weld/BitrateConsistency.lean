/-
**The shared budget stays consistent over all ports.**

Whatever happens to a budget, the next refresh succeeds: it ends with targets for exactly the
demands of the ports that are left, within the target of the pool, and every registry asks its
encoder for the rate the pool has targeted.  The ports that are left are those whose membership has
not been dropped and of which no request has ever failed.

A refresh that finds neither an inventory nor a priority changed publishes nothing, so it does not
learn of an actuator that has failed since; until something is published its port keeps what it
reserves.

Main definitions: `Ready`, `Consistent`, `Sound`.

Main results:

* `Ready.republish` — **republishing succeeds**, whichever actuators fail on the way;
* `Sound.refreshAt` — what a refresh leaves;
* `Sound.step` — whatever happens, a budget stays sound;
* `budget_stays_consistent` — **the budget is consistent after every refresh of every run**,
  and when an operation is refused;
* `failed_actuator_keeps_room` — a failed actuator that has not been asked still reserves.
-/

import Weld.BitrateBudget

namespace Encoded

open Client Gamepad Hoist

/-! ### Requests -/

namespace Registry

@[simp] theorem rateOf_setRate (r : Registry) (stream other : MediaStreamId) (bitrate : ℕ) :
    (r.setRate stream bitrate).rateOf other =
      if other = stream then (r.rateOf other).map fun _ => bitrate else r.rateOf other := by
  simp only [rateOf, setRate, AList.lookup_modify]
  split_ifs
  · rw [Option.map_map, Option.map_map]
    rfl
  · rfl

/-- What a request leaves as it is, and that it is within the limits. -/
theorem requestManaged_spec {r r' : Registry} {stream : MediaStreamId} {bitrate : ℕ}
    (h : r.requestManaged stream bitrate = some r') :
    r'.limits = r.limits ∧ r'.managed = r.managed ∧ r'.nextStream = r.nextStream ∧
      stream < r.nextStream ∧
      ∀ other, r'.rateOf other = if other = stream then some bitrate else r.rateOf other := by
  rw [requestManaged] at h
  split_ifs at h
  obtain ⟨requested, hrequested, hanswer⟩ := Option.bind_eq_some_iff.mp h
  have hnumber := r.numbered stream (AList.mem_keys_of_lookup hrequested)
  have hrate : r.rateOf stream = some requested.bitsPerSecond := by rw [rateOf, hrequested]; rfl
  split_ifs at hanswer with hsame hroom
  · cases hanswer
    refine ⟨rfl, rfl, rfl, hnumber, fun other => ?_⟩
    split_ifs with hother
    · rw [hother, hrate, hsame]
    · rfl
  · cases hanswer
    refine ⟨rfl, rfl, rfl, hnumber, fun other => ?_⟩
    rw [rateOf_setRate]
    split_ifs with hother
    · rw [hother, hrate]
      rfl
    · rfl

end Registry

/-- The rate that is requested of a stream. -/
def requestedRate (registries : Dict ℕ Registry) (control : ℕ) (stream : MediaStreamId) :
    Option ℕ :=
  (registries.lookup control).bind fun registry => registry.rateOf stream

/-- No registry disappears, and none is given back. -/
def Keeps (registries registries' : Dict ℕ Registry) : Prop :=
  ∀ control registry, registries.lookup control = some registry →
    ∃ registry', registries'.lookup control = some registry' ∧
      registry'.limits = registry.limits ∧ (registry.managed = true → registry'.managed = true) ∧
      registry.nextStream ≤ registry'.nextStream

theorem Keeps.refl (registries : Dict ℕ Registry) : Keeps registries registries :=
  fun _ registry h => ⟨registry, h, rfl, id, le_rfl⟩

theorem Keeps.trans {a b c : Dict ℕ Registry} (h : Keeps a b) (h' : Keeps b c) : Keeps a c := by
  intro control registry hregistry
  obtain ⟨r, hr, hlimits, hmanaged, hnext⟩ := h control registry hregistry
  obtain ⟨r', hr', hlimits', hmanaged', hnext'⟩ := h' control r hr
  exact ⟨r', hr', hlimits'.trans hlimits, hmanaged' ∘ hmanaged, hnext.trans hnext'⟩

variable {f : Registry → Registry}

/-- Changing one registry keeps all, if the change keeps that one. -/
theorem Keeps.modify {registries : Dict ℕ Registry} {control : ℕ} (h : ∀ r : Registry, (f r).limits =
      r.limits ∧ (r.managed = true → (f r).managed = true) ∧ r.nextStream ≤ (f r).nextStream) :
    Keeps registries (registries.modify control f) := by
  intro other registry hregistry
  rw [AList.lookup_modify, hregistry]
  split_ifs
  · exact ⟨f registry, rfl, h registry⟩
  · exact ⟨registry, rfl, rfl, id, le_rfl⟩

section Publish

variable (fault : ℕ → Bool)

namespace Actuators

theorem keeps_found (a : Actuators) (control : ℕ) : Keeps a.registries (a.found fault control) := by
  rw [found]
  split_ifs
  · exact .modify fun r => ⟨rfl, id, le_rfl⟩
  · exact .refl _

theorem requestedRate_found (a : Actuators) (control other : ℕ) (stream : MediaStreamId) :
    requestedRate (a.found fault control) other stream =
      requestedRate a.registries other stream := by
  rw [requestedRate, found]
  split_ifs
  · rw [AList.lookup_modify, requestedRate]
    split_ifs
    · cases a.registries.lookup other <;> rfl
    · rfl
  · rfl

theorem keeps_request (a : Actuators) (p : Publication) :
    Keeps a.registries (a.request fault p).registries := by
  refine (keeps_found fault a p.control).trans ?_
  rw [request]
  cases hanswer : a.answer fault p with
  | none => exact .refl _
  | some registry =>
      obtain ⟨r, hr, hregistry⟩ := Option.bind_eq_some_iff.mp hanswer
      obtain ⟨hlimits, hmanaged, hnext, -⟩ := Registry.requestManaged_spec hregistry
      intro control old hold
      rw [AList.lookup_insert_eq]
      split_ifs with hsame
      · subst hsame
        rw [hr] at hold
        cases hold
        exact ⟨registry, rfl, hlimits, fun h => hmanaged.trans h, hnext.ge⟩
      · exact ⟨old, hold, rfl, id, le_rfl⟩

variable {a : Actuators} {p : Publication} {pubs : List Publication} {failed : List ℕ}

variable {fault} in
/-- A request that succeeds asks for its rate, of a stream that has been registered. -/
theorem request_spec (h : (a.answer fault p).isSome = true) :
    (∀ control stream, requestedRate (a.request fault p).registries control stream =
      if control = p.control ∧ stream = p.stream then some p.rate
      else requestedRate a.registries control stream) ∧
    ∃ registry, (a.request fault p).registries.lookup p.control = some registry ∧
      p.stream < registry.nextStream := by
  obtain ⟨registry, hanswer⟩ := Option.isSome_iff_exists.mp h
  obtain ⟨r, hr, hregistry⟩ := Option.bind_eq_some_iff.mp hanswer
  obtain ⟨-, -, hnext, hnumber, hrate⟩ := Registry.requestManaged_spec hregistry
  simp only [request, hanswer]
  refine ⟨fun control stream => ?_, registry, ?_, hnext ▸ hnumber⟩
  · rw [← requestedRate_found fault a p.control, requestedRate, AList.lookup_insert_eq]
    by_cases hcontrol : control = p.control
    · subst hcontrol
      simp only [if_true, true_and, Option.bind_some, hrate, requestedRate, hr]
    · simp [hcontrol, requestedRate]
  · rw [AList.lookup_insert_eq, if_pos rfl]

theorem failed_request (a : Actuators) (p : Publication) :
    (a.request fault p).failed =
      if (a.answer fault p).isSome = true then a.failed else a.failed ++ [p.port] := by
  rw [request]
  cases a.answer fault p <;> rfl

theorem keeps_publish (pubs : List Publication) (a : Actuators) (failed : List ℕ) :
    Keeps a.registries (publish fault pubs a failed).1.registries := by
  induction pubs generalizing a failed with
  | nil => exact .refl _
  | cons p rest ih =>
      rw [publish]
      split_ifs
      · exact ih a failed
      · exact (keeps_request fault a p).trans (ih _ _)
      · exact (keeps_request fault a p).trans (ih _ _)

theorem subset_publish (pubs : List Publication) (a : Actuators) (failed : List ℕ) :
    failed ⊆ (publish fault pubs a failed).2 := by
  induction pubs generalizing a failed with
  | nil => exact fun _ h => h
  | cons p rest ih =>
      rw [publish]
      split_ifs
      · exact ih a failed
      · exact ih _ failed
      · exact fun _ h => ih _ _ (List.mem_append_left _ h)

variable {fault} in
/-- Publishing remembers the ports that fail. -/
theorem mem_failed_publish (hfailed : failed ⊆ a.failed) (id : ℕ) :
    id ∈ (publish fault pubs a failed).1.failed ↔
      id ∈ a.failed ∨ id ∈ (publish fault pubs a failed).2 := by
  induction pubs generalizing a failed with
  | nil => exact ⟨Or.inl, fun h => h.elim (fun h => h) fun h => hfailed h⟩
  | cons p rest ih =>
      rw [publish]
      split_ifs with hmem hsome
      · exact ih hfailed
      · have hrequest := failed_request fault a p
        rw [if_pos hsome] at hrequest
        rw [ih (hrequest ▸ hfailed), hrequest]
      · have hrequest := failed_request fault a p
        rw [if_neg hsome] at hrequest
        have hsubset : failed ++ [p.port] ⊆ (a.request fault p).failed := by
          rw [hrequest]
          exact List.append_subset.mpr ⟨fun _ h => List.mem_append_left _ (hfailed h),
            List.subset_append_right _ _⟩
        rw [ih hsubset, hrequest, List.mem_append, List.mem_singleton]
        constructor
        · rintro ((hold | rfl) | hnew)
          · exact Or.inl hold
          · exact Or.inr (subset_publish fault rest _ _ (List.mem_append_right _ List.mem_cons_self))
          · exact Or.inr hnew
        · exact Or.imp_left Or.inl

/-- The last rate published for a stream, or else the one it had. -/
def lastRate (control : ℕ) (stream : MediaStreamId) : List Publication → Option ℕ → Option ℕ
  | [], old => old
  | p :: rest, old =>
      lastRate control stream rest
        (if control = p.control ∧ stream = p.stream then some p.rate else old)

variable {fault} in
/-- If no port fails, the first request has succeeded, and none of the others fails. -/
theorem publish_cons {rest : List Publication} (h : (publish fault (p :: rest) a failed).2 = []) :
    (a.answer fault p).isSome = true ∧
      publish fault (p :: rest) a failed = publish fault rest (a.request fault p) [] := by
  have hnone : failed = [] :=
    List.eq_nil_of_subset_nil (h ▸ subset_publish fault (p :: rest) a failed)
  subst hnone
  rw [publish, if_neg List.not_mem_nil] at h ⊢
  by_cases hsome : (a.answer fault p).isSome = true
  · exact ⟨hsome, by rw [if_pos hsome]⟩
  · rw [if_neg hsome, List.nil_append] at h
    have hport := subset_publish fault rest (a.request fault p) [p.port] List.mem_cons_self
    rw [h] at hport
    cases hport

variable {fault} in
/-- **If no port fails, every stream is asked for the last rate published for it.** -/
theorem requestedRate_publish
    (h : (publish fault pubs a failed).2 = []) (control : ℕ) (stream : MediaStreamId) :
    requestedRate (publish fault pubs a failed).1.registries control stream =
      lastRate control stream pubs (requestedRate a.registries control stream) := by
  induction pubs generalizing a failed with
  | nil => rfl
  | cons p rest ih =>
      obtain ⟨hsome, hrest⟩ := publish_cons h
      rw [hrest] at h ⊢
      rw [ih h, lastRate, (request_spec hsome).1]

variable {fault} in
/-- If no port fails, every stream has been registered. -/
theorem registered_publish (h : (publish fault pubs a failed).2 = []) (hp : p ∈ pubs) :
    ∃ registry, (publish fault pubs a failed).1.registries.lookup p.control = some registry ∧
      p.stream < registry.nextStream := by
  induction pubs generalizing a failed with
  | nil => cases hp
  | cons q rest ih =>
      obtain ⟨hsome, hrest⟩ := publish_cons h
      rw [hrest] at h ⊢
      rcases List.mem_cons.mp hp with rfl | hp
      · obtain ⟨registry, hregistry, hnumber⟩ := (request_spec hsome).2
        obtain ⟨later, hlater, -, -, hnext⟩ :=
          keeps_publish fault rest (a.request fault p) [] p.control registry hregistry
        exact ⟨later, hlater, hnumber.trans_le hnext⟩
      · exact ih h hp

end Actuators

end Publish

/-! ### Inputs and targets -/

namespace Coordinator

variable {c : Coordinator} {port : PortInventory}

/-- Looking a port up by its identity finds it. -/
theorem portOf_eq (h : c.ports.Pairwise (·.id < ·.id))
    (hport : port ∈ c.ports) : c.portOf port.id = some port := by
  rw [portOf]
  revert hport h
  induction c.ports with
  | nil =>
      intro _ hport
      cases hport
  | cons first rest ih =>
      intro h hport
      rw [List.pairwise_cons] at h
      rw [List.find?_cons]
      rcases List.mem_cons.mp hport with rfl | hrest
      · rw [beq_self_eq_true]
      · rw [beq_false_of_ne (h.1 port hrest).ne]
        exact ih h.2 hrest

theorem portOf_spec {id : ℕ} (h : c.portOf id = some port) : port ∈ c.ports ∧ port.id = id := by
  have hid := List.find?_some h
  exact ⟨List.mem_of_find?_eq_some h, by simpa using hid⟩

/-- The inputs are those of the demands. -/
theorem mem_allocationInputs {priorities : Dict (ℕ × Group) Priority} {originals : Dict StreamKey ℕ}
    {input : AllocationInput} (h : input ∈ c.allocationInputs priorities originals) :
    ∃ port ∈ c.ports, ∃ demand ∈ port.demands, input.key = (port.id, demand.stream) ∧
      input.pixels = demand.pixels ∧ input.limits = port.limits ∧
      input.areaWeight =
        (demand.preference.map fun value => c.policy.roleWeight value.role).getD 1 ∧
      input.current = originals.lookup (port.id, demand.stream) := by
  obtain ⟨port, hport, hinput⟩ := List.mem_flatMap.mp h
  obtain ⟨demand, hdemand, rfl⟩ := List.mem_map.mp hinput
  exact ⟨port, hport, demand, hdemand, rfl, rfl, rfl, rfl, rfl⟩

theorem exists_input (priorities : Dict (ℕ × Group) Priority) (originals : Dict StreamKey ℕ)
    (hport : port ∈ c.ports) {demand : StreamDemand} (hdemand : demand ∈ port.demands) :
    ∃ i : Fin (c.allocationInputs priorities originals).length,
      ((c.allocationInputs priorities originals).get i).key = (port.id, demand.stream) := by
  have hmem : port.input c.policy priorities originals demand ∈
      c.allocationInputs priorities originals :=
    List.mem_flatMap.mpr ⟨port, hport, List.mem_map_of_mem hdemand⟩
  obtain ⟨i, hi⟩ := List.get_of_mem hmem
  exact ⟨i, congrArg AllocationInput.key hi⟩

variable {inputs : List AllocationInput}

/-- Every input is published, to the registry of its port. -/
theorem mem_publications (h : c.ports.Pairwise (·.id < ·.id)) (rates : Fin inputs.length → ℕ)
    (hport : port ∈ c.ports) {i : Fin inputs.length} (hi : (inputs.get i).key.1 = port.id) :
    ⟨port.id, port.control, (inputs.get i).key.2, rates i⟩ ∈ c.publications inputs rates :=
  List.mem_filterMap.mpr ⟨i, List.mem_finRange i, by rw [hi, portOf_eq h hport]; rfl⟩

/-- **What is targeted is what is published.** -/
theorem lastRate_publications (hordered : c.ports.Pairwise (·.id < ·.id))
    (hapart : (c.ports.map (·.control)).Nodup)
    (hinputs : ∀ i : Fin inputs.length, ∃ port ∈ c.ports, (inputs.get i).key.1 = port.id)
    (rates : Fin inputs.length → ℕ) (hport : port ∈ c.ports) {stream : MediaStreamId} {rate : ℕ}
    {old : Option ℕ} (h : (assignRates inputs rates).lookup (port.id, stream) = some rate) :
    Actuators.lastRate port.control stream (c.publications inputs rates) old = some rate := by
  have hlist : ∀ (l : List (Fin inputs.length)) (targets : Dict StreamKey ℕ) (old : Option ℕ),
      (targets.lookup (port.id, stream) = some rate → old = some rate) →
      (l.foldl (fun targets i => targets.insert (inputs.get i).key (rates i)) targets).lookup
        (port.id, stream) = some rate →
      Actuators.lastRate port.control stream
        (l.filterMap fun i => (c.portOf (inputs.get i).key.1).map fun port =>
          ⟨port.id, port.control, (inputs.get i).key.2, rates i⟩) old = some rate := by
    intro l
    induction l with
    | nil => exact fun targets old hstart hfound => hstart hfound
    | cons i rest ih =>
        intro targets old hstart hfound
        obtain ⟨found, hmem, hid⟩ := hinputs i
        rw [List.filterMap_cons, hid, portOf_eq hordered hmem, Option.map_some]
        refine ih _ _ (fun hinserted => ?_) hfound
        rw [AList.lookup_insert_eq] at hinserted
        split_ifs with hsame
        · have hfoundport : port = found := List.inj_on_of_nodup_map hapart hport hmem hsame.1
          rw [if_pos (Prod.ext (hfoundport ▸ hid.symm) hsame.2)] at hinserted
          exact hinserted
        · rw [if_neg] at hinserted
          · exact hstart hinserted
          · intro hkey
            have hfoundport := portOf_eq hordered hport
            rw [show port.id = found.id from (congrArg Prod.fst hkey).trans hid,
              portOf_eq hordered hmem] at hfoundport
            cases hfoundport
            exact hsame ⟨rfl, congrArg Prod.snd hkey⟩
  exact hlist _ ∅ old (fun hnone => by cases hnone) h

/-- What all members reserve. -/
theorem required_none (c : Coordinator) :
    c.required none = ((c.ports.filter fun port => port.live).map (·.reserved)).sum := rfl

/-- The minima of the inputs of live ports are what these reserve. -/
theorem sum_minimum (c : Coordinator) (priorities : Dict (ℕ × Group) Priority)
    (originals : Dict StreamKey ℕ) :
    ∑ i, ((c.retainLive.allocationInputs priorities originals).get i).limits.minimum =
      c.required none := by
  have hlist : ∀ ports : List PortInventory,
      ((ports.flatMap fun port => port.demands.map (port.input c.policy priorities originals)).map
        fun input => input.limits.minimum).sum = (ports.map (·.reserved)).sum := by
    intro ports
    induction ports with
    | nil => rfl
    | cons port rest ih =>
        rw [List.flatMap_cons, List.map_append, List.sum_append, ih, List.map_cons, List.sum_cons]
        congr 1
        rw [List.map_map, PortInventory.reserved]
        induction port.demands with
        | nil => rfl
        | cons demand demands ihd =>
            rw [List.map_cons, List.sum_cons, ihd, List.length_cons, Nat.mul_succ, Nat.add_comm]
            rfl
  rw [required_none, ← hlist]
  exact Fin.sum_univ_fun_getElem (c.retainLive.allocationInputs priorities originals)
    fun input => input.limits.minimum

end Coordinator

open Coordinator

section AssignRates

variable {inputs : List AllocationInput} (rates : Fin inputs.length → ℕ)

/-- The rates after some of the inputs. -/
theorem assigned_spec (l : List (Fin inputs.length)) (targets : Dict StreamKey ℕ) :
    (∀ key, ((l.foldl (fun targets i => targets.insert (inputs.get i).key (rates i))
        targets).lookup key).isSome = true ↔
      (∃ i ∈ l, (inputs.get i).key = key) ∨ (targets.lookup key).isSome = true) ∧
    (∀ key rate, (l.foldl (fun targets i => targets.insert (inputs.get i).key (rates i))
        targets).lookup key = some rate →
      (∃ i ∈ l, (inputs.get i).key = key ∧ rates i = rate) ∨ targets.lookup key = some rate) ∧
    ((l.foldl (fun targets i => targets.insert (inputs.get i).key (rates i))
        targets).entries.map (·.2)).sum ≤
      (targets.entries.map (·.2)).sum + (l.map rates).sum := by
  induction l generalizing targets with
  | nil => simp
  | cons i rest ih =>
      obtain ⟨hkeys, hvalues, hsum⟩ := ih (targets.insert (inputs.get i).key (rates i))
      refine ⟨fun key => ?_, fun key rate h => ?_, ?_⟩
      · rw [List.foldl_cons, hkeys, AList.lookup_insert_eq]
        by_cases hkey : key = (inputs.get i).key
        · subst hkey
          simp
        · have hne : ¬ (inputs.get i).key = key := fun h => hkey h.symm
          rw [if_neg hkey]
          simp only [List.mem_cons, exists_eq_or_imp, hne, false_or]
      · rcases hvalues key rate h with ⟨j, hj, hfound⟩ | hfound
        · exact Or.inl ⟨j, List.mem_cons_of_mem i hj, hfound⟩
        · rw [AList.lookup_insert_eq] at hfound
          split_ifs at hfound with hkey
          · exact Or.inl ⟨i, List.mem_cons_self, hkey.symm, Option.some.inj hfound⟩
          · exact Or.inr hfound
      · have herase : ((targets.entries.kerase (inputs.get i).key).map (·.2)).sum ≤
            (targets.entries.map (·.2)).sum :=
          ((List.kerase_sublist _ _).map _).sum_le_sum fun _ _ => Nat.zero_le _
        simp only [AList.entries_insert, List.map_cons, List.sum_cons] at hsum
        rw [List.foldl_cons, List.map_cons, List.sum_cons]
        omega

/-- **Targets are for the demanded streams.** -/
theorem assignRates_isSome (key : StreamKey) :
    ((assignRates inputs rates).lookup key).isSome = true ↔ ∃ i, (inputs.get i).key = key := by
  have h := (assigned_spec rates (List.finRange inputs.length) ∅).1 key
  simpa [assignRates] using h

variable {rates} in
theorem mem_assignRates {key : StreamKey} {rate : ℕ}
    (h : (assignRates inputs rates).lookup key = some rate) :
    ∃ i, (inputs.get i).key = key ∧ rates i = rate := by
  rcases (assigned_spec rates (List.finRange inputs.length) ∅).2.1 key rate h with
    ⟨i, -, hi⟩ | hnone
  · exact ⟨i, hi⟩
  · cases hnone

/-- Two demands for one stream are given one rate. -/
theorem sum_assignRates_le : ((assignRates inputs rates).entries.map (·.2)).sum ≤ ∑ i, rates i := by
  have h := (assigned_spec rates (List.finRange inputs.length) ∅).2.2
  rw [← Fin.sum_univ_def] at h
  simpa [assignRates] using h

end AssignRates

/-! ### What holds at any time -/

/-- A demand the division can handle. -/
def StreamDemand.Sized (policy : BitrateAllocationPolicy) (demand : StreamDemand) : Prop :=
  0 < demand.pixels ∧
    demand.pixels * (demand.preference.map fun value => policy.roleWeight value.role).getD 1 <
      2 ^ 64

/-- What holds of a budget at any time, and of the rates its streams had when a refresh began. -/
structure Ready (originals : Dict StreamKey ℕ) (w : SharedBudget) : Prop where
  ordered : w.coordinator.ports.Pairwise (·.id < ·.id)
  fresh : ∀ next ∈ w.coordinator.nextPort, (∀ port ∈ w.coordinator.ports, port.id < next) ∧
    ∀ key rate, originals.lookup key = some rate → key.1 < next
  unfailed : ∀ next ∈ w.coordinator.nextPort, ∀ id ∈ w.actuators.failed, id < next
  reserved : w.coordinator.required none ≤ w.coordinator.target
  sized : ∀ port ∈ w.coordinator.ports, ∀ demand ∈ port.demands, demand.Sized w.coordinator.policy
  rated : ∀ port ∈ w.coordinator.ports, ∀ stream rate,
    originals.lookup (port.id, stream) = some rate → port.limits.Valid rate
  owned : ∀ port ∈ w.coordinator.ports, ∃ registry,
    w.actuators.registries.lookup port.control = some registry ∧
      registry.limits = port.limits ∧ registry.managed = true
  apart : (w.coordinator.ports.map (·.control)).Nodup
  spared : ∀ port ∈ w.coordinator.ports, port.id ∉ w.actuators.failed

/-- What holds of a budget after a refresh. -/
structure Consistent (w : SharedBudget) : Prop where
  live : ∀ port ∈ w.coordinator.ports, port.live = true
  allocated : ∃ originals rates,
    allocate w.coordinator.target
        (w.coordinator.allocationInputs w.coordinator.priorities originals).get = .ok rates ∧
      w.coordinator.targets = assignRates _ rates
  covers : ∀ key, (w.coordinator.targets.lookup key).isSome = true ↔
    ∃ port ∈ w.coordinator.ports, ∃ demand ∈ port.demands, (port.id, demand.stream) = key
  within : (w.coordinator.targets.entries.map (·.2)).sum ≤ w.coordinator.target
  registered : ∀ port ∈ w.coordinator.ports, ∀ demand ∈ port.demands, ∃ registry,
    w.actuators.registries.lookup port.control = some registry ∧ demand.stream < registry.nextStream
  requested : ∀ port ∈ w.coordinator.ports, ∀ demand ∈ port.demands, ∀ rate,
    requestedRate w.actuators.registries port.control demand.stream = some rate →
      w.coordinator.targets.lookup (port.id, demand.stream) = some rate

/-- A budget between two operations. -/
structure Sound (w : SharedBudget) : Prop where
  ready : Ready w.coordinator.targets w
  clean : w.coordinator.dirty = false → Consistent w

variable {port : PortInventory} {c : Coordinator}

section Republish

variable {fault : ℕ → Bool} {originals : Dict StreamKey ℕ} {w : SharedBudget}

theorem mem_retainLive : port ∈ c.retainLive.ports ↔ port ∈ c.ports ∧ port.live = true := by
  simp [Coordinator.retainLive]

variable {now : Instant}

/-- What a pass comes to, where an allocation exists. -/
theorem pass_eq
    {rates : Fin (w.coordinator.retainLive.allocationInputs
      (w.coordinator.retainLive.currentPriorities now) originals).length → ℕ}
    (h : allocate w.coordinator.target (w.coordinator.retainLive.allocationInputs
      (w.coordinator.retainLive.currentPriorities now) originals).get = .ok rates) :
    w.pass fault originals now = .ok
      ⟨assignRates _ rates, w.coordinator.retainLive.currentPriorities now,
        (Actuators.publish fault (w.coordinator.retainLive.publications _ rates) w.actuators []).1,
        (Actuators.publish fault (w.coordinator.retainLive.publications _ rates) w.actuators
          []).2⟩ := by
  have htarget : w.coordinator.retainLive.target = w.coordinator.target := rfl
  rw [SharedBudget.pass]
  simp only [htarget, h, Except.map]

/-- **A pass succeeds**, and where no port fails it leaves the budget consistent. -/
theorem Ready.pass (h : Ready originals w) (fault : ℕ → Bool) (now : Instant) :
    ∃ pass, w.pass fault originals now = .ok pass ∧
      Keeps w.actuators.registries pass.actuators.registries ∧
      (∀ id, id ∈ pass.actuators.failed ↔ id ∈ w.actuators.failed ∨ id ∈ pass.failed) ∧
      (∀ key rate, pass.targets.lookup key = some rate → ∃ port ∈ w.coordinator.retainLive.ports,
        port.id = key.1 ∧ port.limits.Valid rate) ∧
      (pass.failed = [] → Consistent (w.commit pass)) := by
  let c := w.coordinator.retainLive
  let inputs := c.allocationInputs (c.currentPriorities now) originals
  have hinput : ∀ i : Fin inputs.length, ∃ port ∈ c.ports, ∃ demand ∈ port.demands,
      (inputs.get i).key = (port.id, demand.stream) ∧ (inputs.get i).pixels = demand.pixels ∧
        (inputs.get i).limits = port.limits ∧
        (inputs.get i).areaWeight =
          (demand.preference.map fun value => c.policy.roleWeight value.role).getD 1 ∧
        (inputs.get i).current = originals.lookup (port.id, demand.stream) :=
    fun i => mem_allocationInputs (inputs.get_mem i)
  have hordered : c.ports.Pairwise (·.id < ·.id) := h.ordered.filter _
  have hapart : (c.ports.map (·.control)).Nodup := h.apart.sublist (List.filter_sublist.map _)
  obtain ⟨rates, hrates, hvalid, hsum⟩ :
      ∃ rates, allocate w.coordinator.target inputs.get = .ok rates ∧
        (∀ i, (inputs.get i).limits.Valid (rates i)) ∧ ∑ i, rates i ≤ w.coordinator.target := by
    refine allocate_isOk (fun i => ?_) (fun i => ?_) (fun i rate hrate => ?_) ?_
    · obtain ⟨port, hport, demand, hdemand, -, hpixels, -⟩ := hinput i
      rw [hpixels]
      exact (h.sized port (mem_retainLive.mp hport).1 demand hdemand).1
    · obtain ⟨port, hport, demand, hdemand, -, hpixels, -, harea, -⟩ := hinput i
      rw [hpixels, harea]
      exact (h.sized port (mem_retainLive.mp hport).1 demand hdemand).2
    · obtain ⟨port, hport, demand, hdemand, -, -, hlimits, -, hcurrent⟩ := hinput i
      rw [hlimits]
      rw [hcurrent] at hrate
      exact h.rated port (mem_retainLive.mp hport).1 _ _ hrate
    · exact (sum_minimum w.coordinator (c.currentPriorities now) originals).trans_le
        h.reserved
  refine ⟨_, pass_eq hrates, Actuators.keeps_publish _ _ _ _, fun id =>
    Actuators.mem_failed_publish (List.nil_subset _) id, fun key rate hkey => ?_, fun hnone => ?_⟩
  · obtain ⟨i, hi, rfl⟩ := mem_assignRates hkey
    obtain ⟨port, hport, demand, -, hkey', -, hlimits, -⟩ := hinput i
    exact ⟨port, hport, congrArg Prod.fst (hkey'.symm.trans hi), hlimits ▸ hvalid i⟩
  · have hcovers : ∀ key, ((assignRates inputs rates).lookup key).isSome = true ↔
        ∃ port ∈ c.ports, ∃ demand ∈ port.demands, (port.id, demand.stream) = key := by
      intro key
      rw [assignRates_isSome]
      constructor
      · rintro ⟨i, hi⟩
        obtain ⟨port, hport, demand, hdemand, hkey, -⟩ := hinput i
        exact ⟨port, hport, demand, hdemand, hkey.symm.trans hi⟩
      · rintro ⟨port, hport, demand, hdemand, rfl⟩
        exact exists_input _ _ hport hdemand
    refine ⟨fun port hport => (mem_retainLive.mp hport).2, ⟨originals, rates, hrates, rfl⟩,
      hcovers, (sum_assignRates_le rates).trans hsum, fun port hport demand hdemand => ?_,
      fun port hport demand hdemand rate hrate => ?_⟩
    · obtain ⟨i, hi⟩ := exists_input (c.currentPriorities now) originals hport hdemand
      have hpub := mem_publications hordered rates hport (congrArg Prod.fst hi)
      obtain ⟨registry, hregistry, hnumber⟩ := Actuators.registered_publish hnone hpub
      exact ⟨registry, hregistry, (congrArg Prod.snd hi).symm.trans_lt hnumber⟩
    · have hrequested := Actuators.requestedRate_publish hnone port.control demand.stream
      have hsome := (hcovers (port.id, demand.stream)).mpr ⟨port, hport, demand, hdemand, rfl⟩
      obtain ⟨target, htarget⟩ := Option.isSome_iff_exists.mp hsome
      have hports : ∀ i : Fin inputs.length, ∃ port ∈ c.ports, (inputs.get i).key.1 = port.id := by
        intro i
        obtain ⟨port, hport, demand, -, hkey, -⟩ := hinput i
        exact ⟨port, hport, congrArg Prod.fst hkey⟩
      rw [lastRate_publications hordered hapart hports rates hport htarget]
        at hrequested
      rw [SharedBudget.commit] at hrate ⊢
      rw [hrequested] at hrate
      rw [htarget, hrate]

variable {pass : Pass}

theorem republish_eq (h : w.pass fault originals now = .ok pass) :
    w.republish fault originals now =
      if pass.failed = [] then (w.commit pass, .ok ())
      else (w.expel pass).republish fault originals now := by
  rw [SharedBudget.republish]
  split
  · rename_i e herror
    rw [h] at herror
    cases herror
  · rename_i found hfound
    rw [h] at hfound
    cases hfound
    split_ifs <;> rfl

/-- Fewer members reserve less. -/
theorem required_le_of_sublist {c' : Coordinator} (h : c'.ports.Sublist c.ports) :
    c'.required none ≤ c.required none :=
  ((h.filter _).map _).sum_le_sum fun _ _ => Nat.zero_le _

/-- What a refresh leaves of a budget, once it publishes. -/
structure Refreshed (w r : SharedBudget) : Prop where
  target : r.coordinator.target = w.coordinator.target
  policy : r.coordinator.policy = w.coordinator.policy
  nextPort : r.coordinator.nextPort = w.coordinator.nextPort
  ports : r.coordinator.ports = w.coordinator.ports.filter fun port =>
    port.live && decide (port.id ∉ r.actuators.failed)
  failed : ∀ id ∈ w.actuators.failed, id ∈ r.actuators.failed
  keeps : Keeps w.actuators.registries r.actuators.registries
  sound : Sound r
  clean : r.coordinator.dirty = false

/-- Without the ports that failed the budget is as ready as before. -/
theorem Ready.expel (h : Ready originals w) (hpass : w.pass fault originals now = .ok pass)
    (hkeeps : Keeps w.actuators.registries pass.actuators.registries)
    (hfailed : ∀ id, id ∈ pass.actuators.failed ↔ id ∈ w.actuators.failed ∨ id ∈ pass.failed) :
    Ready originals (w.expel pass) := by
  have hsub : (w.expel pass).coordinator.ports.Sublist w.coordinator.ports :=
    List.filter_sublist.trans List.filter_sublist
  refine ⟨h.ordered.sublist hsub, fun next hnext => ?_, fun next hnext id hid => ?_,
    (required_le_of_sublist hsub).trans h.reserved, fun port hport => h.sized port (hsub.subset hport),
    fun port hport => h.rated port (hsub.subset hport), fun port hport => ?_,
    h.apart.sublist (hsub.map _), fun port hport hid => ?_⟩
  · exact ⟨fun port hport => (h.fresh next hnext).1 port (hsub.subset hport),
      (h.fresh next hnext).2⟩
  · rcases (hfailed id).mp hid with hold | hnew
    · exact h.unfailed next hnext id hold
    · obtain ⟨port, hport, rfl⟩ := SharedBudget.pass_failed hpass hnew
      exact (h.fresh next hnext).1 port (mem_retainLive.mp hport).1
  · obtain ⟨registry, hregistry, hlimits, hmanaged⟩ := h.owned port (hsub.subset hport)
    obtain ⟨later, hlater, hsame, hstill, -⟩ := hkeeps port.control registry hregistry
    exact ⟨later, hlater, hsame.trans hlimits, hstill hmanaged⟩
  · rcases (hfailed port.id).mp hid with hold | hnew
    · exact h.spared port (hsub.subset hport) hold
    · have hstays := (List.mem_filter.mp hport).2
      simp only [decide_eq_true_eq] at hstays
      exact hstays hnew

/-- A pass without failures leaves the budget sound. -/
theorem Ready.commit (h : Ready originals w)
    (hkeeps : Keeps w.actuators.registries pass.actuators.registries)
    (hfailed : ∀ id, id ∈ pass.actuators.failed ↔ id ∈ w.actuators.failed ∨ id ∈ pass.failed) (htargets
      : ∀ key rate, pass.targets.lookup key = some rate → ∃ port ∈ w.coordinator.retainLive.ports,
      port.id = key.1 ∧ port.limits.Valid rate) (hnone : pass.failed = [])
    (hconsistent : Consistent (w.commit pass)) : Refreshed w (w.commit pass) := by
  have hsub : (w.commit pass).coordinator.ports.Sublist w.coordinator.ports := List.filter_sublist
  have hsame : ∀ id, id ∈ pass.actuators.failed ↔ id ∈ w.actuators.failed := by
    intro id
    rw [hfailed, hnone]
    simp
  have hready : Ready pass.targets (w.commit pass) := by
    refine ⟨h.ordered.sublist hsub, fun next hnext => ⟨?_, fun key rate hkey => ?_⟩,
      fun next hnext id hid => h.unfailed next hnext id ((hsame id).mp hid),
      (required_le_of_sublist hsub).trans h.reserved,
      fun port hport => h.sized port (hsub.subset hport), fun port hport stream rate hrate => ?_,
      fun port hport => ?_, h.apart.sublist (hsub.map _),
      fun port hport hid => h.spared port (hsub.subset hport) ((hsame port.id).mp hid)⟩
    · exact fun port hport => (h.fresh next hnext).1 port (hsub.subset hport)
    · obtain ⟨port, hport, hid, -⟩ := htargets key rate hkey
      exact hid ▸ (h.fresh next hnext).1 port (hsub.subset hport)
    · obtain ⟨other, hother, hid, hvalid⟩ := htargets _ _ hrate
      have hfind := portOf_eq (h.ordered.sublist hsub) hport
      rw [show port.id = other.id from hid.symm, portOf_eq (h.ordered.sublist hsub) hother] at hfind
      cases hfind
      exact hvalid
    · obtain ⟨registry, hregistry, hlimits, hmanaged⟩ := h.owned port (hsub.subset hport)
      obtain ⟨later, hlater, hlater', hstill, -⟩ := hkeeps port.control registry hregistry
      exact ⟨later, hlater, hlater'.trans hlimits, hstill hmanaged⟩
  refine ⟨rfl, rfl, rfl, List.filter_congr fun port hport => ?_, fun id hid => (hsame id).mpr hid,
    hkeeps, ⟨hready, fun _ => hconsistent⟩, rfl⟩
  have hspared : port.id ∉ pass.actuators.failed := fun hid =>
    h.spared port hport ((hsame port.id).mp hid)
  simp [SharedBudget.commit, hspared]

/-- **Republishing succeeds**, whichever actuators fail on the way. -/
theorem Ready.republish (h : Ready originals w) (fault : ℕ → Bool) (now : Instant) :
    (w.republish fault originals now).2 = .ok () ∧
      Refreshed w (w.republish fault originals now).1 := by
  induction hlength : w.coordinator.ports.length using Nat.strong_induction_on generalizing w with
  | _ length ih =>
      obtain ⟨pass, hpass, hkeeps, hfailed, htargets, hconsistent⟩ := h.pass fault now
      rw [republish_eq hpass]
      split_ifs with hnone
      · exact ⟨rfl, h.commit hkeeps hfailed htargets hnone (hconsistent hnone)⟩
      · have hless := SharedBudget.length_expel_lt hpass hnone
        obtain ⟨hok, hrest⟩ := ih _ (hlength ▸ hless) (h.expel hpass hkeeps hfailed) rfl
        refine ⟨hok, hrest.target, hrest.policy, hrest.nextPort, ?_, fun id hid => ?_,
          hkeeps.trans hrest.keeps, hrest.sound, hrest.clean⟩
        · generalize (w.expel pass).republish fault originals now = r at hrest ⊢
          rw [hrest.ports, SharedBudget.expel, Coordinator.expel, Coordinator.retainLive]
          simp only [List.filter_filter]
          refine List.filter_congr fun port _ => ?_
          by_cases hin : port.id ∈ pass.failed
          · have hstill := hrest.failed port.id ((hfailed port.id).mpr (Or.inr hin))
            simp [hstill]
          · cases hlive : port.live <;> simp [hin]
        · exact hrest.failed id ((hfailed id).mpr (Or.inl hid))

end Republish

/-! ### Changing ports -/

/-- Change every port. -/
def SharedBudget.revise (w : SharedBudget) (f : PortInventory → PortInventory) (dirty : Bool) :
    SharedBudget :=
  ⟨{ w.coordinator with ports := w.coordinator.ports.map f, dirty := dirty }, w.actuators⟩

/-- The port is who it was. -/
structure PortInventory.Same (port port' : PortInventory) : Prop where
  id : port'.id = port.id
  control : port'.control = port.control
  limits : port'.limits = port.limits

theorem PortInventory.Same.input_eq {port' : PortInventory} (h : port.Same port') :
    port'.input = port.input := by
  obtain ⟨hid, -, hlimits⟩ := h
  cases port
  cases port'
  subst hid hlimits
  rfl

/-- The port asks for what it asked for. -/
structure PortInventory.Alike (port port' : PortInventory) : Prop extends port.Same port' where
  live : port'.live = port.live
  demands : port'.demands = port.demands

section Revise

variable {originals : Dict StreamKey ℕ} {w : SharedBudget} {f : PortInventory → PortInventory}
  {dirty : Bool}

/-- Ports may change what they ask for, as long as that fits. -/
theorem Ready.revise (h : Ready originals w) (hf : ∀ port : PortInventory, port.Same (f port))
    (hreserved : (w.revise f dirty).coordinator.required none ≤ w.coordinator.target)
    (hsized : ∀ port ∈ w.coordinator.ports, ∀ demand ∈ (f port).demands,
      demand.Sized w.coordinator.policy) : Ready originals (w.revise f dirty) := by
  have hport : ∀ port ∈ (w.revise f dirty).coordinator.ports,
      ∃ old ∈ w.coordinator.ports, f old = port := fun port hport => List.mem_map.mp hport
  refine ⟨?_, fun next hnext => ⟨fun port hmem => ?_, (h.fresh next hnext).2⟩, h.unfailed,
    hreserved, fun port hmem => ?_, fun port hmem stream rate hrate => ?_, fun port hmem => ?_, ?_,
    fun port hmem => ?_⟩
  · refine List.pairwise_map.mpr (h.ordered.imp fun {a b} hab => ?_)
    rw [(hf a).id, (hf b).id]
    exact hab
  · obtain ⟨old, hold, rfl⟩ := hport port hmem
    exact (hf old).id ▸ (h.fresh next hnext).1 old hold
  · obtain ⟨old, hold, rfl⟩ := hport port hmem
    exact hsized old hold
  · obtain ⟨old, hold, rfl⟩ := hport port hmem
    rw [(hf old).id] at hrate
    exact (hf old).limits ▸ h.rated old hold stream rate hrate
  · obtain ⟨old, hold, rfl⟩ := hport port hmem
    rw [(hf old).control, (hf old).limits]
    exact h.owned old hold
  · have hmap : (w.revise f dirty).coordinator.ports.map (·.control) =
        w.coordinator.ports.map (·.control) := by
      rw [SharedBudget.revise, List.map_map]
      exact List.map_congr_left fun port _ => (hf port).control
    rw [hmap]
    exact h.apart
  · obtain ⟨old, hold, rfl⟩ := hport port hmem
    exact (hf old).id ▸ h.spared old hold

/-- Ports that ask for no more reserve no more. -/
theorem required_revise_le (h : ∀ port ∈ w.coordinator.ports, (f port).live = true →
    port.live = true ∧ (f port).reserved = port.reserved) :
    (w.revise f dirty).coordinator.required none ≤ w.coordinator.required none := by
  rw [required_none, required_none, SharedBudget.revise]
  simp only
  revert h
  induction w.coordinator.ports with
  | nil => exact fun _ => le_rfl
  | cons port rest ih =>
      intro h
      have hrest := ih fun p hp => h p (List.mem_cons_of_mem port hp)
      rw [List.map_cons, List.filter_cons, List.filter_cons]
      split_ifs with hnew hold hold
      · rw [List.map_cons, List.map_cons, List.sum_cons, List.sum_cons,
          (h port List.mem_cons_self hnew).2]
        exact Nat.add_le_add_left hrest _
      · exact absurd (h port List.mem_cons_self hnew).1 hold
      · rw [List.map_cons, List.sum_cons]
        exact hrest.trans (Nat.le_add_left _ _)
      · exact hrest

theorem Ready.reviseAlike (h : Ready originals w) (hf : ∀ port : PortInventory, port.Alike (f port)) :
    Ready originals (w.revise f dirty) := by
  refine h.revise (fun port => (hf port).toSame) ((required_revise_le fun port _ hlive => ?_).trans
    h.reserved) fun port hport => ?_
  · rw [PortInventory.reserved, (hf port).limits, (hf port).demands]
    exact ⟨(hf port).live.symm.trans hlive, rfl⟩
  · rw [(hf port).demands]
    exact h.sized port hport

/-- What is published stays what is asked for. -/
theorem Consistent.reviseAlike (h : Consistent w) (hf : ∀ port : PortInventory, port.Alike (f port)) :
    Consistent (w.revise f dirty) := by
  have hport : ∀ port ∈ (w.revise f dirty).coordinator.ports,
      ∃ old ∈ w.coordinator.ports, f old = port := fun port hport => List.mem_map.mp hport
  have hinputs : ∀ originals, (w.revise f dirty).coordinator.allocationInputs
      (w.revise f dirty).coordinator.priorities originals =
        w.coordinator.allocationInputs w.coordinator.priorities originals := by
    intro originals
    simp only [allocationInputs, SharedBudget.revise, List.flatMap_map]
    refine List.flatMap_congr fun port _ => ?_
    rw [(hf port).demands]
    refine List.map_congr_left fun demand _ => ?_
    rw [(hf port).input_eq]
  refine ⟨fun port hmem => ?_, ?_, fun key => ?_, h.within, fun port hmem demand hdemand => ?_,
    fun port hmem demand hdemand rate hrate => ?_⟩
  · obtain ⟨old, hold, rfl⟩ := hport port hmem
    exact (hf old).live.trans (h.live old hold)
  · obtain ⟨originals, rates, hrates, htargets⟩ := h.allocated
    refine ⟨originals, ?_⟩
    rw [hinputs]
    exact ⟨rates, hrates, htargets⟩
  · refine (h.covers key).trans ?_
    constructor
    · rintro ⟨port, hport, demand, hdemand, rfl⟩
      exact ⟨f port, List.mem_map_of_mem hport, demand, (hf port).demands ▸ hdemand,
        by rw [(hf port).id]⟩
    · rintro ⟨port, hmem, demand, hdemand, rfl⟩
      obtain ⟨old, hold, rfl⟩ := hport port hmem
      exact ⟨old, hold, demand, (hf old).demands ▸ hdemand, by rw [(hf old).id]⟩
  · obtain ⟨old, hold, rfl⟩ := hport port hmem
    rw [(hf old).control]
    exact h.registered old hold demand ((hf old).demands ▸ hdemand)
  · obtain ⟨old, hold, rfl⟩ := hport port hmem
    rw [(hf old).control] at hrate
    rw [(hf old).id]
    exact h.requested old hold demand ((hf old).demands ▸ hdemand) rate hrate

end Revise

/-! ### Refreshing -/

/-- Time passes for the focus of every port. -/
def SharedBudget.advance (w : SharedBudget) (now : Instant) : SharedBudget :=
  w.revise (fun port =>
    { port with focus := port.focus.advance now w.coordinator.policy.focusSettle })
    w.coordinator.dirty

theorem alike_advance (now : Instant) (settle : Duration) (port : PortInventory) :
    port.Alike { port with focus := port.focus.advance now settle } :=
  ⟨⟨rfl, rfl, rfl⟩, rfl, rfl⟩

variable {w : SharedBudget}

/-- **A refresh succeeds**, and leaves the budget consistent. -/
theorem Sound.refreshAt (h : Sound w) (fault : ℕ → Bool) (now : Instant) :
    (w.refreshAt fault now).2 = .ok () ∧
      Refreshed (w.advance now) (w.refreshAt fault now).1 := by
  rw [SharedBudget.refreshAt]
  have hready : Ready w.coordinator.targets (w.advance now) :=
    h.ready.reviseAlike (alike_advance now _)
  split_ifs with hquiet
  · have hconsistent : Consistent (w.advance now) :=
      (h.clean hquiet.1).reviseAlike (alike_advance now _)
    refine ⟨rfl, rfl, rfl, rfl, ?_, fun _ hid => hid, .refl _, ⟨hready, fun _ => hconsistent⟩,
      hquiet.1⟩
    refine (List.filter_eq_self.mpr fun port hport => ?_).symm
    have hspared : port.id ∉ w.actuators.failed := hready.spared port hport
    simp [hconsistent.live port hport, hspared]
  · have hdirty : Ready w.coordinator.targets
        ⟨{ w.coordinator.advanceFocus now with dirty := true }, w.actuators⟩ :=
      h.ready.reviseAlike (alike_advance now _)
    obtain ⟨hok, hrefreshed⟩ := hdirty.republish fault now
    exact ⟨hok, hrefreshed.target, hrefreshed.policy, hrefreshed.nextPort, hrefreshed.ports,
      hrefreshed.failed, hrefreshed.keeps, hrefreshed.sound, hrefreshed.clean⟩

theorem andThen_ok {α : Type} {r : SharedBudget × Except BudgetError Unit} (h : r.2 = .ok ())
    (f : SharedBudget → SharedBudget × Except BudgetError α) : SharedBudget.andThen r f = f r.1 := by
  rw [SharedBudget.andThen, h]

/-! ### Registries change -/

/-- What happens to registries by themselves: rates are forgotten, and new streams begin. -/
theorem Sound.registries (h : Sound w) {registries : Dict ℕ Registry}
    (hkeeps : Keeps w.actuators.registries registries) (hrates : ∀ control registry,
      w.actuators.registries.lookup control = some registry → ∀ stream < registry.nextStream, ∀ rate,
      requestedRate registries control stream = some rate → requestedRate w.actuators.registries control
      stream = some rate) :
    Sound { w with actuators := { w.actuators with registries := registries } } := by
  obtain ⟨hready, hclean⟩ := h
  refine ⟨⟨hready.ordered, hready.fresh, hready.unfailed, hready.reserved, hready.sized,
    hready.rated, fun port hport => ?_, hready.apart, hready.spared⟩, fun hdirty => ?_⟩
  · obtain ⟨registry, hregistry, hlimits, hmanaged⟩ := hready.owned port hport
    obtain ⟨later, hlater, hsame, hstill, -⟩ := hkeeps port.control registry hregistry
    exact ⟨later, hlater, hsame.trans hlimits, hstill hmanaged⟩
  · obtain hconsistent := hclean hdirty
    refine ⟨hconsistent.live, hconsistent.allocated, hconsistent.covers, hconsistent.within,
      fun port hport demand hdemand => ?_, fun port hport demand hdemand rate hrate => ?_⟩
    · obtain ⟨registry, hregistry, hnumber⟩ := hconsistent.registered port hport demand hdemand
      obtain ⟨later, hlater, -, -, hnext⟩ := hkeeps port.control registry hregistry
      exact ⟨later, hlater, hnumber.trans_le hnext⟩
    · obtain ⟨registry, hregistry, hnumber⟩ := hconsistent.registered port hport demand hdemand
      exact hconsistent.requested port hport demand hdemand rate
        (hrates port.control registry hregistry demand.stream hnumber rate hrate)

/-- One registry changes by itself. -/
theorem Sound.modifyRegistry (h : Sound w) (control : ℕ) (hf : ∀ r : Registry, (f r).limits = r.limits ∧
      (r.managed = true → (f r).managed = true) ∧ r.nextStream ≤ (f r).nextStream) (hrates : ∀ r :
      Registry, ∀ stream < r.nextStream, ∀ rate, (f r).rateOf stream = some rate → r.rateOf stream =
      some rate) : Sound (w.modifyRegistry control f) := by
  refine h.registries (.modify hf) fun other registry hregistry stream hstream rate hrate => ?_
  rw [requestedRate, AList.lookup_modify, hregistry] at hrate
  rw [requestedRate, hregistry]
  split_ifs at hrate
  · exact hrates registry stream hstream rate hrate
  · exact hrate

theorem Sound.create (h : Sound w) (control : ℕ) (limits : EncoderBitrateLimits) :
    Sound { w with
      actuators := { w.actuators with
        registries := w.actuators.registries.insertNew control (.new limits) } } := by
  have hsame : ∀ other registry, w.actuators.registries.lookup other = some registry →
      (w.actuators.registries.insertNew control (.new limits)).lookup other = some registry := by
    intro other registry hregistry
    rw [AList.lookup_insertNew, hregistry]
    split_ifs <;> rfl
  refine h.registries (fun other registry hregistry =>
    ⟨registry, hsame other registry hregistry, rfl, id, le_rfl⟩)
    fun other registry hregistry stream _ rate hrate => ?_
  rw [requestedRate, hsame other registry hregistry] at hrate
  rw [requestedRate, hregistry]
  exact hrate

theorem Sound.disconnect (h : Sound w) (control : ℕ) :
    Sound (w.modifyRegistry control ({ · with connected := false })) :=
  h.modifyRegistry control (fun _ => ⟨rfl, id, le_rfl⟩) fun _ _ _ _ hrate => hrate

theorem Sound.register (h : Sound w) (control : ℕ) : Sound (w.modifyRegistry control (·.register)) := by
  refine h.modifyRegistry control (fun r => ?_) fun r stream hstream rate hrate => ?_
  · rw [Registry.register]
    split_ifs
    · exact ⟨rfl, id, Nat.le_succ _⟩
    · exact ⟨rfl, id, le_rfl⟩
  · rw [Registry.register] at hrate
    split_ifs at hrate
    · rw [Registry.rateOf, AList.lookup_insert_eq, if_neg hstream.ne] at hrate
      exact hrate
    · exact hrate

theorem Sound.remove (h : Sound w) (control : ℕ) (stream : MediaStreamId) :
    Sound (w.modifyRegistry control (·.remove stream)) := by
  refine h.modifyRegistry control (fun r => ?_) fun r other _ rate hrate => ?_
  · rw [Registry.remove]
    split_ifs <;> exact ⟨rfl, id, le_rfl⟩
  · rw [Registry.remove] at hrate
    split_ifs at hrate
    · rw [Registry.rateOf, AList.lookup_erase_eq] at hrate
      split_ifs at hrate
      · cases hrate
      · exact hrate
    · exact hrate

/-! ### Operations -/

section Operations

variable {w : SharedBudget} (h : Sound w) (fault : ℕ → Bool)

include h

/-- A preflight refreshes, and looks whether the port is a member and its streams fit. -/
theorem Sound.preflight (id count : ℕ) (now : Instant) :
    w.preflight fault id count now =
      ((w.refreshAt fault now).1,
        match (w.refreshAt fault now).1.coordinator.portOf id with
        | none => .error .retired
        | some _ => (w.refreshAt fault now).1.coordinator.checkMinimum
            (w.refreshAt fault now).1.coordinator.target (some (id, count))) := by
  rw [SharedBudget.preflight, andThen_ok (h.refreshAt fault now).1]
  cases (w.refreshAt fault now).1.coordinator.portOf id <;> rfl

/-- A snapshot never fails. -/
theorem Sound.snapshot (now : Instant) :
    w.snapshot fault now =
      ((w.refreshAt fault now).1, .ok ⟨(w.refreshAt fault now).1.coordinator.target,
          ((w.refreshAt fault now).1.coordinator.targets.entries.map (·.2)).sum,
          (w.refreshAt fault now).1.coordinator.targets.entries.length⟩) := by
  rw [SharedBudget.snapshot, andThen_ok (h.refreshAt fault now).1]

omit h in
/-- With other demands the members reserve what was checked. -/
theorem required_setDemands (id : ℕ) (demands : List StreamDemand) :
    (w.revise (fun port => if port.id = id then port.setDemands demands else port)
      true).coordinator.required none = w.coordinator.required (some (id, demands.length)) := by
  rw [required_none, required, SharedBudget.revise]
  simp only
  induction w.coordinator.ports with
  | nil => rfl
  | cons port rest ih =>
      rw [List.map_cons, List.filter_cons, List.filter_cons]
      by_cases hid : port.id = id
      · subst hid
        rw [if_pos rfl, show (port.setDemands demands).live = port.live from rfl]
        split_ifs
        · rw [List.map_cons, List.map_cons, List.sum_cons, List.sum_cons, ih, Option.filter_some,
            if_pos (decide_eq_true rfl)]
          rfl
        · exact ih
      · have hne : ¬ id = port.id := fun hsame => hid hsame.symm
        rw [if_neg hid]
        split_ifs
        · rw [List.map_cons, List.map_cons, List.sum_cons, List.sum_cons, ih, Option.filter_some,
            if_neg (by simpa using hne)]
          rfl
        · exact ih

omit h in
/-- An inventory that does not fit is refused, and nothing changes. -/
theorem updateInventory_eq (id : ℕ) (demands : List StreamDemand) :
    w.updateInventory id demands =
      if w.coordinator.target < w.coordinator.required (some (id, demands.length)) then
        (w, .error (.insufficient w.coordinator.target
          (w.coordinator.required (some (id, demands.length)))))
      else
        match w.coordinator.portOf id with
        | none => (w, .error .retired)
        | some port =>
            if port.demands = demands then (w, .ok ())
            else
              (w.revise (fun port => if port.id = id then port.setDemands demands else port) true,
                .ok ()) := by
  rw [SharedBudget.updateInventory, checkMinimum]
  split_ifs
  · rfl
  · cases w.coordinator.portOf id <;> rfl

theorem Sound.updateInventory (id : ℕ) {demands : List StreamDemand}
    (hsized : ∀ demand ∈ demands, demand.Sized w.coordinator.policy) :
    Sound (w.updateInventory id demands).1 := by
  rw [updateInventory_eq]
  split_ifs with hfits
  · exact h
  · cases w.coordinator.portOf id with
    | none => exact h
    | some port =>
        simp only
        split_ifs
        · exact h
        · have hready : Ready w.coordinator.targets
              (w.revise (fun port => if port.id = id then port.setDemands demands else port)
                true) := by
            refine h.ready.revise (fun port => ?_) ?_ fun port hport => ?_
            · split_ifs <;> exact ⟨rfl, rfl, rfl⟩
            · rw [required_setDemands]
              exact Nat.le_of_not_lt hfits
            · split_ifs
              · exact hsized
              · exact h.ready.sized port hport
          exact ⟨hready, fun hclean => by cases hclean⟩

/-- A target that the minima of the members exceed is refused after the refresh; any other takes
effect. -/
theorem Sound.setTarget {bits : ℕ} (hbits : bits ≠ 0) (now : Instant) :
    ((w.refreshAt fault now).1.coordinator.required none ≤ bits ∧
      (w.setTarget fault bits now).2 = .ok () ∧ Sound (w.setTarget fault bits now).1 ∧
      (w.setTarget fault bits now).1.coordinator.target = bits ∧
      (w.setTarget fault bits now).1.coordinator.policy = w.coordinator.policy) ∨
    (bits < (w.refreshAt fault now).1.coordinator.required none ∧
      w.setTarget fault bits now = ((w.refreshAt fault now).1, .error (.insufficient bits
        ((w.refreshAt fault now).1.coordinator.required none)))) := by
  obtain ⟨hok, hrefreshed⟩ := h.refreshAt fault now
  rw [SharedBudget.setTarget, if_neg hbits, andThen_ok hok, checkMinimum]
  generalize (w.refreshAt fault now).1 = r at hrefreshed ⊢
  split_ifs with hfits
  · exact Or.inr ⟨hfits, rfl⟩
  · have hroom := Nat.le_of_not_lt hfits
    simp only
    split_ifs with hsame
    · obtain ⟨hok', hagain⟩ := hrefreshed.sound.refreshAt fault now
      exact Or.inl ⟨hroom, hok', hagain.sound, hagain.target.trans hsame,
        hagain.policy.trans hrefreshed.policy⟩
    · obtain ⟨hordered, hfresh, hunfailed, -, hsized, hrated, howned, hapart, hspared⟩ :=
        hrefreshed.sound.ready
      have hset : Sound ⟨{ r.coordinator with target := bits, dirty := true }, r.actuators⟩ :=
        ⟨⟨hordered, hfresh, hunfailed, hroom, hsized, hrated, howned, hapart, hspared⟩,
          fun hclean => by cases hclean⟩
      obtain ⟨hok', hagain⟩ := hset.refreshAt fault now
      exact Or.inl ⟨hroom, hok', hagain.sound, hagain.target, hagain.policy.trans hrefreshed.policy⟩

/-- Attention never makes an operation fail, except for a port that is no member afterwards. -/
theorem Sound.updateAttention {id : ℕ} (hport : w.coordinator.portOf id = some port)
    (attention : Dict Group GroupAttention) (now : Instant) :
    Sound (w.updateAttention fault id attention now).1 ∧
      (w.updateAttention fault id attention now).1.coordinator.policy = w.coordinator.policy ∧
      ((w.updateAttention fault id attention now).2 = .ok () ↔
        ∃ port ∈ (w.updateAttention fault id attention now).1.coordinator.ports, port.id = id) := by
  let observe := fun port : PortInventory =>
    if port.id = id then port.observe attention now w.coordinator.policy else port
  have halike : ∀ port : PortInventory, port.Alike (observe port) := by
    intro port
    simp only [observe]
    split_ifs <;> exact ⟨⟨rfl, rfl, rfl⟩, rfl, rfl⟩
  have hobserved : Sound (w.revise observe w.coordinator.dirty) :=
    ⟨h.ready.reviseAlike halike, fun hclean => (h.clean hclean).reviseAlike halike⟩
  obtain ⟨hok, hrefreshed⟩ := hobserved.refreshAt fault now
  have hresult : w.updateAttention fault id attention now =
      ((SharedBudget.refreshAt fault (w.revise observe w.coordinator.dirty) now).1,
        match (SharedBudget.refreshAt fault (w.revise observe w.coordinator.dirty)
          now).1.coordinator.portOf id with
        | none => .error .retired
        | some _ => .ok ()) := by
    rw [SharedBudget.updateAttention, hport]
    refine (andThen_ok hok _).trans ?_
    cases (SharedBudget.refreshAt fault (w.revise observe w.coordinator.dirty)
      now).1.coordinator.portOf id <;> rfl
  rw [hresult]
  refine ⟨hrefreshed.sound, hrefreshed.policy, ?_⟩
  generalize (SharedBudget.refreshAt fault (w.revise observe w.coordinator.dirty) now).1 = r
    at hrefreshed ⊢
  cases hfound : r.coordinator.portOf id with
  | none =>
      refine ⟨(fun hfalse => nomatch hfalse), ?_⟩
      rintro ⟨port, hmem, rfl⟩
      rw [portOf_eq hrefreshed.sound.ready.ordered hmem] at hfound
      cases hfound
  | some found => exact ⟨fun _ => ⟨found, portOf_spec hfound⟩, fun _ => rfl⟩

/-- A membership that is dropped leaves the others alone. -/
theorem Sound.dropMembership (id : ℕ) (borrowed : Bool) (now : Instant) :
    Sound (w.dropMembership fault id borrowed now) ∧
      (w.dropMembership fault id borrowed now).coordinator.policy = w.coordinator.policy ∧
      ∀ port ∈ (w.dropMembership fault id borrowed now).coordinator.ports, port.id = id →
        borrowed = true ∧ port.live = false := by
  let drop := fun port : PortInventory => if port.id = id then { port with live := false } else port
  have hready : Ready w.coordinator.targets (w.revise drop true) := by
    refine h.ready.revise (fun port => ?_) ((required_revise_le fun port _ hlive => ?_).trans
      h.ready.reserved) fun port hport => ?_
    · simp only [drop]
      split_ifs <;> exact ⟨rfl, rfl, rfl⟩
    · simp only [drop] at hlive ⊢
      split_ifs at hlive ⊢
      exact ⟨hlive, rfl⟩
    · simp only [drop]
      split_ifs <;> exact h.ready.sized port hport
  have hdropped : Sound (w.revise drop true) := ⟨hready, fun hclean => by cases hclean⟩
  have hdead : ∀ port ∈ (w.revise drop true).coordinator.ports, port.id = id →
      port.live = false := by
    intro port hport hid
    obtain ⟨old, -, rfl⟩ := List.mem_map.mp hport
    simp only [drop] at hid ⊢
    split_ifs at hid ⊢ with hold
    · rfl
    · exact absurd hid hold
  rw [SharedBudget.dropMembership]
  cases borrowed with
  | true => exact ⟨hdropped, rfl, fun port hport hid => ⟨rfl, hdead port hport hid⟩⟩
  | false =>
      obtain ⟨-, hrefreshed⟩ := hdropped.refreshAt fault now
      refine ⟨hrefreshed.sound, hrefreshed.policy, fun port hport hid => ?_⟩
      have hmem : port ∈ ((w.revise drop true).advance now).coordinator.ports := by
        have hsub := hrefreshed.ports ▸ hport
        exact (List.mem_filter.mp hsub).1
      obtain ⟨old, hold, rfl⟩ := List.mem_map.mp hmem
      have hlive := (hrefreshed.sound.clean hrefreshed.clean).live _ hport
      have hgone : old.live = false := hdead old hold hid
      rw [show old.live = true from hlive] at hgone
      cases hgone

omit h in
theorem manage_spec {registry managed : Registry} (h : registry.manage = .ok managed) :
    registry.managed = false ∧ registry.streams.keys = [] ∧
      managed = { registry with managed := true } := by
  rw [Registry.manage] at h
  split_ifs at h with hconnected hmanaged hstreams
  cases h
  exact ⟨by simpa using hmanaged, by simpa using hstreams, rfl⟩

/-- A new port of a registry that no budget owns yet. -/
theorem Sound.enlist {control id : ℕ} {registry managed : Registry}
    (hregistry : w.actuators.registries.lookup control = some registry)
    (hmanage : registry.manage = .ok managed) (hid : w.coordinator.nextPort = some id) :
    Sound ⟨{ w.coordinator with
      nextPort := if id + 1 < 2 ^ 64 then some (id + 1) else none
      ports := w.coordinator.ports ++
        [{ id := id, control := control, limits := registry.limits }] },
      { w.actuators with
        registries := w.actuators.registries.insert control managed }⟩ := by
  obtain ⟨hunmanaged, -, rfl⟩ := manage_spec hmanage
  have hnext : ∀ next, (if id + 1 < 2 ^ 64 then some (id + 1) else none) = some next →
      id + 1 = next := by
    intro next hsome
    split_ifs at hsome
    exact Option.some.inj hsome
  obtain ⟨hbelow, hkeys⟩ := h.ready.fresh id hid
  have hother : ∀ port ∈ w.coordinator.ports, port.control ≠ control := by
    rintro port hport rfl
    obtain ⟨owned, howned, -, hmanaged⟩ := h.ready.owned port hport
    rw [hregistry] at howned
    cases howned
    rw [hunmanaged] at hmanaged
    cases hmanaged
  have hlookup : ∀ port ∈ w.coordinator.ports,
      (w.actuators.registries.insert control { registry with managed := true }).lookup
        port.control = w.actuators.registries.lookup port.control := by
    intro port hport
    rw [AList.lookup_insert_eq, if_neg (hother port hport)]
  refine ⟨⟨?_, fun next hsome => ⟨fun port hport => ?_, fun key rate hkey => ?_⟩,
    fun next hsome failed hfailed => ?_, ?_, fun port hport => ?_, fun port hport stream rate hrate => ?_,
    fun port hport => ?_, ?_, fun port hport => ?_⟩, fun hclean => ?_⟩
  · refine List.pairwise_append.mpr ⟨h.ready.ordered, List.pairwise_singleton _ _,
      fun port hport new hnew => ?_⟩
    cases List.mem_singleton.mp hnew
    exact hbelow port hport
  · rw [← hnext next hsome]
    rcases List.mem_append.mp hport with hold | hnew
    · exact Nat.lt_succ_of_lt (hbelow port hold)
    · cases List.mem_singleton.mp hnew
      exact Nat.lt_succ_self id
  · rw [← hnext next hsome]
    exact Nat.lt_succ_of_lt (hkeys key rate hkey)
  · rw [← hnext next hsome]
    exact Nat.lt_succ_of_lt (h.ready.unfailed id hid failed hfailed)
  · refine le_trans (le_of_eq ?_) h.ready.reserved
    rw [required_none, required_none]
    simp [PortInventory.reserved]
  · rcases List.mem_append.mp hport with hold | hnew
    · exact h.ready.sized port hold
    · cases List.mem_singleton.mp hnew
      exact fun demand hdemand => absurd hdemand List.not_mem_nil
  · rcases List.mem_append.mp hport with hold | hnew
    · exact h.ready.rated port hold stream rate hrate
    · cases List.mem_singleton.mp hnew
      exact absurd (hkeys _ rate hrate) (Nat.lt_irrefl id)
  · rcases List.mem_append.mp hport with hold | hnew
    · simp only
      rw [hlookup port hold]
      exact h.ready.owned port hold
    · cases List.mem_singleton.mp hnew
      refine ⟨{ registry with managed := true }, ?_, rfl, rfl⟩
      rw [AList.lookup_insert_eq, if_pos rfl]
  · simp only [List.map_append, List.map_cons, List.map_nil]
    refine List.nodup_append.mpr ⟨h.ready.apart, List.nodup_singleton _, ?_⟩
    intro a ha b hb
    obtain ⟨port, hport, rfl⟩ := List.mem_map.mp ha
    cases List.mem_singleton.mp hb
    exact hother port hport
  · rcases List.mem_append.mp hport with hold | hnew
    · exact h.ready.spared port hold
    · cases List.mem_singleton.mp hnew
      exact fun hfailed => absurd (h.ready.unfailed id hid id hfailed) (Nat.lt_irrefl id)
  · have hconsistent := h.clean hclean
    refine ⟨fun port hport => ?_, ?_, fun key => ?_, hconsistent.within,
      fun port hport demand hdemand => ?_, fun port hport demand hdemand rate hrate => ?_⟩
    · rcases List.mem_append.mp hport with hold | hnew
      · exact hconsistent.live port hold
      · cases List.mem_singleton.mp hnew
        rfl
    · obtain ⟨originals, rates, hrates, htargets⟩ := hconsistent.allocated
      refine ⟨originals, ?_⟩
      have hinputs : ∀ g : PortInventory → StreamDemand → AllocationInput,
          (w.coordinator.ports ++ [(⟨id, true, control, registry.limits, [], ∅, {}⟩ :
              PortInventory)]).flatMap (fun port => port.demands.map (g port)) =
            w.coordinator.ports.flatMap fun port => port.demands.map (g port) := by
        intro g
        rw [List.flatMap_append]
        simp
      simp only [allocationInputs]
      rw [hinputs]
      exact ⟨rates, hrates, htargets⟩
    · refine (hconsistent.covers key).trans ?_
      simp [List.mem_append, or_and_right, exists_or]
    · rcases List.mem_append.mp hport with hold | hnew
      · simp only
        rw [hlookup port hold]
        exact hconsistent.registered port hold demand hdemand
      · cases List.mem_singleton.mp hnew
        cases hdemand
    · rcases List.mem_append.mp hport with hold | hnew
      · simp only [requestedRate] at hrate
        rw [hlookup port hold] at hrate
        exact hconsistent.requested port hold demand hdemand rate hrate
      · cases List.mem_singleton.mp hnew
        cases hdemand

/-- A registry that cannot join is refused for its own sake, or for want of identities. -/
theorem Sound.attach (control : ℕ) (now : Instant) :
    Sound (w.attach fault control now).1 ∧
      (w.attach fault control now).1.coordinator.policy = w.coordinator.policy ∧
      ((∃ id, (w.attach fault control now).2 = .ok id ∧
          (w.refreshAt fault now).1.coordinator.nextPort = some id) ∨
        (w.attach fault control now).1 = (w.refreshAt fault now).1 ∧
          (w.attach fault control now).2 ∈
            [.error .disconnected, .error .owned, .error .streamsRegistered,
              .error .portsExhausted]) := by
  obtain ⟨hok, hrefreshed⟩ := h.refreshAt fault now
  rw [SharedBudget.attach, andThen_ok hok]
  generalize (w.refreshAt fault now).1 = r at hrefreshed ⊢
  have hsound := hrefreshed.sound
  have hpolicy : r.coordinator.policy = w.coordinator.policy := hrefreshed.policy
  cases hregistry : r.actuators.registries.lookup control with
  | none => exact ⟨hsound, hpolicy, Or.inr ⟨rfl, by simp⟩⟩
  | some registry =>
      simp only
      split_ifs with hconnected
      · exact ⟨hsound, hpolicy, Or.inr ⟨rfl, by simp⟩⟩
      · cases hnext : r.coordinator.nextPort with
        | none => exact ⟨hsound, hpolicy, Or.inr ⟨rfl, by simp⟩⟩
        | some id =>
            cases hmanage : registry.manage with
            | error e =>
                refine ⟨hsound, hpolicy, Or.inr ⟨rfl, ?_⟩⟩
                rw [Registry.manage] at hmanage
                split_ifs at hmanage <;> cases hmanage <;> simp
            | ok managed =>
                exact ⟨hsound.enlist hregistry hmanage hnext, hpolicy, Or.inl ⟨id, rfl, rfl⟩⟩

end Operations

/-! ### Runs -/

/-- The demands of a call can be handled. -/
def BudgetCall.Sized (policy : BitrateAllocationPolicy) : BudgetCall → Prop
  | .updateInventory _ demands => ∀ demand ∈ demands, demand.Sized policy
  | _ => True

/-- **Whatever happens, a budget stays sound.** -/
theorem Sound.step (h : Sound w) (fault : ℕ → Bool) {call : BudgetCall}
    (hsized : call.Sized w.coordinator.policy) :
    Sound (w.step fault call) ∧ (w.step fault call).coordinator.policy = w.coordinator.policy := by
  cases call with
  | create control limits => exact ⟨h.create control limits, rfl⟩
  | disconnect control => exact ⟨h.disconnect control, rfl⟩
  | register control => exact ⟨h.register control, rfl⟩
  | remove control stream => exact ⟨h.remove control stream, rfl⟩
  | attach control now =>
      obtain ⟨hsound, hpolicy, -⟩ := h.attach fault control now
      exact ⟨hsound, hpolicy⟩
  | preflight id count now =>
      obtain ⟨-, hrefreshed⟩ := h.refreshAt fault now
      rw [SharedBudget.step]
      split_ifs
      · rw [h.preflight]
        exact ⟨hrefreshed.sound, hrefreshed.policy⟩
      · exact ⟨h, rfl⟩
  | updateInventory id demands =>
      rw [SharedBudget.step]
      split_ifs
      · refine ⟨h.updateInventory id hsized, ?_⟩
        rw [updateInventory_eq]
        split_ifs
        · rfl
        · cases w.coordinator.portOf id with
          | none => rfl
          | some port =>
              simp only
              split_ifs <;> rfl
      · exact ⟨h, rfl⟩
  | updateAttention id attention now =>
      rw [SharedBudget.step]
      split_ifs
      · cases hport : w.coordinator.portOf id with
        | none =>
            rw [SharedBudget.updateAttention, hport]
            exact ⟨h, rfl⟩
        | some port =>
            obtain ⟨hsound, hpolicy, -⟩ := h.updateAttention fault hport attention now
            exact ⟨hsound, hpolicy⟩
      · exact ⟨h, rfl⟩
  | setTarget bits now =>
      obtain ⟨-, hrefreshed⟩ := h.refreshAt fault now
      rw [SharedBudget.step]
      by_cases hbits : bits = 0
      · rw [SharedBudget.setTarget, if_pos hbits]
        exact ⟨h, rfl⟩
      · rcases h.setTarget fault hbits now with ⟨-, -, hsound, -, hpolicy⟩ | ⟨-, hrefused⟩
        · exact ⟨hsound, hpolicy⟩
        · rw [hrefused]
          exact ⟨hrefreshed.sound, hrefreshed.policy⟩
  | snapshot now =>
      obtain ⟨-, hrefreshed⟩ := h.refreshAt fault now
      rw [SharedBudget.step, h.snapshot]
      exact ⟨hrefreshed.sound, hrefreshed.policy⟩
  | drop id borrowed now =>
      rw [SharedBudget.step]
      split_ifs
      · obtain ⟨hsound, hpolicy, -⟩ := h.dropMembership fault id borrowed now
        exact ⟨hsound, hpolicy⟩
      · exact ⟨h, rfl⟩

/-- A new pool is sound: there is nothing to divide. -/
theorem sound_new {target : ℕ} {policy : BitrateAllocationPolicy}
    (h : new target policy = some c) : Sound ⟨c, {}⟩ ∧ c.policy = policy := by
  rw [new] at h
  split_ifs at h
  cases h
  have hnobody : ∀ port : PortInventory, port ∉ ([] : List PortInventory) :=
    fun _ => List.not_mem_nil
  have hready : Ready ∅ ⟨{ target := target, policy := policy }, {}⟩ := by
    refine ⟨.nil, fun next _ => ⟨fun port hport => absurd hport (hnobody port), ?_⟩,
      fun _ _ id hid => absurd hid List.not_mem_nil, Nat.zero_le _,
      fun port hport => absurd hport (hnobody port), fun port hport => absurd hport (hnobody port),
      fun port hport => absurd hport (hnobody port), List.nodup_nil,
      fun port hport => absurd hport (hnobody port)⟩
    intro key rate hkey
    cases hkey
  have hempty : ∃ rates, allocate target ([] : List AllocationInput).get = .ok rates :=
    (allocate_isOk (fun i => i.elim0) (fun i => i.elim0) (fun i => i.elim0)
      (Nat.zero_le _)).imp fun _ h => h.1
  obtain ⟨rates, hrates⟩ := hempty
  refine ⟨⟨hready, fun _ => ⟨fun port hport => absurd hport (hnobody port),
    ⟨∅, rates, hrates, rfl⟩, fun key => ⟨(fun hsome => nomatch hsome), ?_⟩, Nat.zero_le _,
    fun port hport => absurd hport (hnobody port),
    fun port hport => absurd hport (hnobody port)⟩⟩, rfl⟩
  rintro ⟨port, hport, -⟩
  exact absurd hport (hnobody port)

/-- **The shared budget stays consistent over all ports.** -/
theorem budget_stays_consistent (fault : ℕ → Bool) {target : ℕ} {policy : BitrateAllocationPolicy}
    {c : Coordinator} (hnew : new target policy = some c) {calls : List BudgetCall}
    (hsized : ∀ call ∈ calls, call.Sized policy) {w : SharedBudget}
    (hrun : w = Transition.exec (SharedBudget.step fault) ⟨c, {}⟩ calls) :
    (∀ port ∈ w.coordinator.ports, port.id ∉ w.actuators.failed) ∧
    (∀ now, (w.refreshAt fault now).2 = .ok () ∧
      (w.refreshAt fault now).1.coordinator.target = w.coordinator.target ∧
      (w.refreshAt fault now).1.coordinator.ports =
        (w.advance now).coordinator.ports.filter (fun port =>
          port.live && decide (port.id ∉ (w.refreshAt fault now).1.actuators.failed)) ∧
      Consistent (w.refreshAt fault now).1 ∧
      (w.coordinator.dirty = false → (w.advance now).coordinator.changed now = false →
        (w.refreshAt fault now).1 = w.advance now)) ∧
    (∀ id count now, w.preflight fault id count now =
      ((w.refreshAt fault now).1,
        match (w.refreshAt fault now).1.coordinator.portOf id with
        | none => .error .retired
        | some _ => (w.refreshAt fault now).1.coordinator.checkMinimum
            (w.refreshAt fault now).1.coordinator.target (some (id, count)))) ∧
    (∀ id demands, w.updateInventory id demands =
      if w.coordinator.target < w.coordinator.required (some (id, demands.length)) then
        (w, .error (.insufficient w.coordinator.target
          (w.coordinator.required (some (id, demands.length)))))
      else
        match w.coordinator.portOf id with
        | none => (w, .error .retired)
        | some port =>
            if port.demands = demands then (w, .ok ())
            else
              (w.revise (fun port => if port.id = id then port.setDemands demands else port) true,
                .ok ())) ∧
    (∀ bits now, bits ≠ 0 →
      ((w.refreshAt fault now).1.coordinator.required none ≤ bits ∧
        (w.setTarget fault bits now).2 = .ok () ∧ Sound (w.setTarget fault bits now).1 ∧
        (w.setTarget fault bits now).1.coordinator.target = bits ∧
        (w.setTarget fault bits now).1.coordinator.policy = w.coordinator.policy) ∨
      (bits < (w.refreshAt fault now).1.coordinator.required none ∧
        w.setTarget fault bits now = ((w.refreshAt fault now).1, .error (.insufficient bits
          ((w.refreshAt fault now).1.coordinator.required none))))) ∧
    (∀ id attention now port, w.coordinator.portOf id = some port →
      ((w.updateAttention fault id attention now).2 = .ok () ↔
        ∃ port ∈ (w.updateAttention fault id attention now).1.coordinator.ports, port.id = id)) ∧
    (∀ now, ∃ snapshot, w.snapshot fault now = ((w.refreshAt fault now).1, .ok snapshot)) ∧
    (∀ control now, (∃ id, (w.attach fault control now).2 = .ok id) ∨
      (w.attach fault control now).1 = (w.refreshAt fault now).1 ∧
        (w.attach fault control now).2 ∈
          [.error .disconnected, .error .owned, .error .streamsRegistered,
            .error .portsExhausted]) ∧
    ∀ id now, ∀ port ∈ (w.dropMembership fault id false now).coordinator.ports, port.id ≠ id := by
  obtain ⟨hstart, hpolicy⟩ := sound_new hnew
  have hsound : Sound w ∧ w.coordinator.policy = policy := by
    rw [hrun]
    clear hrun
    have hpolicy : (⟨c, {}⟩ : SharedBudget).coordinator.policy = policy := hpolicy
    generalize (⟨c, {}⟩ : SharedBudget) = start at hstart hpolicy ⊢
    induction calls generalizing start with
    | nil => exact ⟨hstart, hpolicy⟩
    | cons call rest ih =>
        obtain ⟨hnext, hkept⟩ := hstart.step fault
          (hpolicy.symm ▸ hsized call List.mem_cons_self)
        exact ih (fun call' hcall' => hsized call' (List.mem_cons_of_mem call hcall')) _ hnext
          (hkept.trans hpolicy)
  obtain ⟨h, -⟩ := hsound
  refine ⟨h.ready.spared, fun now => ?_, fun id count now => h.preflight fault id count now,
    fun id demands => updateInventory_eq id demands, fun bits now hbits => h.setTarget fault hbits now,
    fun id attention now port hport => (h.updateAttention fault hport attention now).2.2,
    fun now => ⟨_, h.snapshot fault now⟩, fun control now => ?_, fun id now port hport hid => ?_⟩
  · obtain ⟨hok, hrefreshed⟩ := h.refreshAt fault now
    refine ⟨hok, hrefreshed.target, hrefreshed.ports, hrefreshed.sound.clean hrefreshed.clean,
      fun hclean hquiet => ?_⟩
    rw [SharedBudget.refreshAt]
    exact congrArg Prod.fst (if_pos ⟨hclean, hquiet⟩)
  · exact (h.attach fault control now).2.2.imp (fun ⟨id, hok, _⟩ => ⟨id, hok⟩) id
  · obtain ⟨hborrowed, -⟩ := (h.dropMembership fault id false now).2.2 port hport hid
    cases hborrowed

/-- An encoder that needs at least 1000 bits per second. -/
def lowLimits : EncoderBitrateLimits := ⟨1000, 2000, 5000, by decide, by decide, by decide⟩

def firstDemand : StreamDemand := ⟨0, ⟨1, ⟨⟨0, 0⟩, 1⟩⟩, 100, none⟩

/-- Two ports join; the first announces a stream, its rate is published, and its registry goes
away. -/
def twoPorts : List BudgetCall :=
  [.create 1 lowLimits, .attach 1 0, .create 2 lowLimits, .attach 2 0, .register 1,
    .updateInventory 1 [firstDemand], .snapshot 0, .disconnect 1]

/-- The refresh after that run leaves the pool consistent. -/
theorem budget_stays_consistent_of_two : Consistent
    ((Transition.exec (SharedBudget.step fun _ => false) ⟨{ target := 1500 }, {}⟩
      twoPorts).refreshAt (fun _ => false) 0).1 := by
  have hnew : new 1500 {} = some { target := 1500 } := rfl
  have hsized : ∀ call ∈ twoPorts, call.Sized {} := by
    intro call hcall
    simp only [twoPorts, List.mem_cons, List.not_mem_nil, or_false] at hcall
    rcases hcall with rfl | rfl | rfl | rfl | rfl | rfl | rfl | rfl
    case inr.inr.inr.inr.inr.inl =>
      intro demand hdemand
      rw [List.mem_singleton.mp hdemand]
      exact ⟨by decide, by decide⟩
    all_goals exact trivial
  exact ((budget_stays_consistent (fun _ => false) hnew hsized rfl).2.1 0).2.2.2.1

/-- **A failed actuator that has not been asked still reserves**: the second port is refused for
want of what the first one holds, and the refresh that precedes does not give it back. -/
theorem failed_actuator_keeps_room :
    let w := Transition.exec (SharedBudget.step fun _ => false) ⟨{ target := 1500 }, {}⟩ twoPorts
    (w.actuators.registries.lookup 1).map (·.connected) = some false ∧
      ((w.preflight (fun _ => false) 2 1 0).2 matches .error (.insufficient 1500 2000)) = true ∧
      ((w.refreshAt (fun _ => false) 0).1.coordinator.portOf 1).map (·.reserved) = some 1000 := by
  decide +kernel

end Encoded
