/-
**A bitrate budget shared by encoded source ports.**

`budget.rs` of `weld-hoist-encoded` keeps one pool for all ports of a runtime.  A port announces its
streams, the coordinator divides the target among the streams of all ports, and publishes every rate
to the registry of the stream's port, where the encoder finds it.  An actuator that refuses a rate
costs its port the membership, and the division is made again without it.

Whether an actuator fails is decided outside: `fault n` says that the registry asked by the `n`-th
request of all turns out to be unavailable from then on.  Everything happens on one thread, so the
coordinator is never found borrowed, except when a membership is dropped.

Main definitions: `Registry.requestManaged`, `Coordinator`, `SharedBudget`,
`SharedBudget.refreshAt`, `BudgetCall`, `SharedBudget.step`.

Main results:

* `SharedBudget.length_expel_lt` — a pass that fails leaves fewer ports, so **republishing
  ends**.
-/

import Weld.BitrateAllocation
import Weld.Transition

namespace Encoded

open Client Gamepad Hoist

/-! ### Quality priorities -/

/-- Local bitrate preferences, with durations in nanoseconds. -/
structure BitrateAllocationPolicy where
  weights : Priority → UInt16 := fun priority =>
    match priority with
    | .background => 1
    | .focused => 2
    | .moving => 2
    | .interactive => 12
  roleWeights : PresentationRole → UInt16 := fun role =>
    match role with
    | .primary => 4
    | .companion => 2
    | .utility => 1
  interactionHold : Duration := 10000000000
  focusSettle : Duration := 500000000

namespace BitrateAllocationPolicy

variable (policy : BitrateAllocationPolicy)

def roleWeight (role : PresentationRole) : ℕ :=
  (policy.roleWeights role).toNat

/-- All weights are positive, and holds are positive and at most a minute. -/
def validate : Bool :=
  [Priority.background, .focused, .moving, .interactive].all
      (fun priority => decide (0 < (policy.weights priority).toNat)) &&
    [PresentationRole.primary, .companion, .utility].all
      (fun role => decide (0 < policy.roleWeight role)) &&
    [policy.interactionHold, policy.focusSettle].all
      fun hold => decide (0 < hold ∧ hold ≤ 60000000000)

/-- Initial motion counts only where the focus has settled. -/
def priority (attention : GroupAttention) (settledFocus : Bool) (now : Instant) : Priority :=
  let priority := ({ attention with
    focused := settledFocus
    sustainedMotion := attention.qualityMotion } : GroupAttention).priority now
      policy.interactionHold policy.interactionHold
  if priority = .moving ∧ settledFocus = false then .background else priority

end BitrateAllocationPolicy

/-- The focus as quality sees it: it moves to a group that has kept it for a while. -/
structure QualityFocus where
  settled : Option Group := none
  candidate : Option (Group × Instant) := none
  deriving DecidableEq

namespace QualityFocus

def advance (f : QualityFocus) (now : Instant) (settle : Duration) : QualityFocus :=
  match f.candidate with
  | some (group, since) => if settle ≤ now - since then ⟨some group, none⟩ else f
  | none => f

/-- At most one group is focused, so the order of the groups is of no account. -/
def observe (f : QualityFocus) (attention : Dict Group GroupAttention) (now : Instant)
    (policy : BitrateAllocationPolicy) : QualityFocus :=
  let settled := f.settled.filter fun group => (attention.lookup group).isSome
  match attention.entries.find? fun entry => entry.2.focused with
  | none => {}
  | some ⟨group, value⟩ =>
      let moved : QualityFocus :=
        if settled = some group then ⟨settled, none⟩
        else if policy.priority value false now = .interactive then ⟨some group, none⟩
        else if f.candidate.all fun candidate => decide (candidate.1 ≠ group) then
          ⟨settled, some (group, now)⟩
        else ⟨settled, f.candidate⟩
      moved.advance now policy.focusSettle

end QualityFocus

/-! ### Registries -/

/-- A rate request; requests of one stream are numbered. -/
structure BitrateRequest where
  revision : ℕ
  bitsPerSecond : ℕ
  deriving DecidableEq, Repr

/-- The registry of a port, as far as the budget is concerned.  It is connected until the port goes
away or its lock is poisoned.  Identities of streams are never reused. -/
structure Registry where
  limits : EncoderBitrateLimits
  connected : Bool := true
  managed : Bool := false
  streams : Dict MediaStreamId BitrateRequest := ∅
  nextStream : MediaStreamId := 0
  numbered : ∀ stream ∈ streams.keys, stream < nextStream

namespace Registry

def new (limits : EncoderBitrateLimits) : Registry where
  limits := limits
  numbered := by simp

variable (r : Registry)

/-- The rate requested of a stream. -/
def rateOf (stream : MediaStreamId) : Option ℕ :=
  (r.streams.lookup stream).map (·.bitsPerSecond)

/-- A stream is asked for another rate. -/
def setRate (stream : MediaStreamId) (bitrate : ℕ) : Registry :=
  { r with
    streams := r.streams.modify stream fun requested => ⟨requested.revision + 1, bitrate⟩
    numbered := by simpa using r.numbered }

/-- A request by the budget; `none` is a failure. -/
def requestManaged (stream : MediaStreamId) (bitrate : ℕ) : Option Registry :=
  if ¬ r.limits.Valid bitrate ∨ r.connected = false ∨ r.managed = false then none
  else
    (r.streams.lookup stream).bind fun requested =>
      if requested.bitsPerSecond = bitrate then some r
      else if requested.revision + 1 < 2 ^ 64 then some (r.setRate stream bitrate)
      else none

/-- A budget takes over a registry that has no streams yet. -/
def manage : Except BudgetError Registry :=
  if r.connected = false then .error .disconnected
  else if r.managed = true then .error .owned
  else if r.streams.keys ≠ [] then .error .streamsRegistered
  else .ok { r with managed := true }

/-- A new stream starts at the initial rate. -/
def register : Registry :=
  if r.connected then
    { r with
      streams := r.streams.insert r.nextStream ⟨0, r.limits.initial⟩
      nextStream := r.nextStream + 1
      numbered := by
        intro stream hstream
        rw [← AList.mem_keys, AList.mem_insert] at hstream
        rcases hstream with rfl | hold
        · exact Nat.lt_succ_self _
        · exact Nat.lt_succ_of_lt (r.numbered stream hold) }
  else r

def remove (stream : MediaStreamId) : Registry :=
  if r.connected then
    { r with
      streams := r.streams.erase stream
      numbered := by
        intro other hother
        rw [AList.keys_erase] at hother
        exact r.numbered other (List.mem_of_mem_erase hother) }
  else r

end Registry

/-- A rate to be published. -/
structure Publication where
  port : ℕ
  control : ℕ
  stream : MediaStreamId
  rate : ℕ
  deriving DecidableEq, Repr

/-- The registries of all ports, how many requests were made to them, and the ports of which some
request failed. -/
structure Actuators where
  registries : Dict ℕ Registry := ∅
  requests : ℕ := 0
  failed : List ℕ := []

section Publish

variable (fault : ℕ → Bool)

namespace Actuators

/-- The registries as the next request finds them. -/
def found (a : Actuators) (control : ℕ) : Dict ℕ Registry :=
  if fault a.requests then
    a.registries.modify control fun registry => { registry with connected := false }
  else a.registries

/-- What a registry makes of the next request. -/
def answer (a : Actuators) (p : Publication) : Option Registry :=
  ((a.found fault p.control).lookup p.control).bind fun registry =>
    registry.requestManaged p.stream p.rate

def request (a : Actuators) (p : Publication) : Actuators :=
  match a.answer fault p with
  | some registry =>
      ⟨(a.found fault p.control).insert p.control registry, a.requests + 1, a.failed⟩
  | none => ⟨a.found fault p.control, a.requests + 1, a.failed ++ [p.port]⟩

/-- Publish rates in order, and none for a port after one of its requests failed.  The second
component collects the ports that failed. -/
def publish : List Publication → Actuators → List ℕ → Actuators × List ℕ
  | [], a, failed => (a, failed)
  | p :: rest, a, failed =>
      if p.port ∈ failed then publish rest a failed
      else
        publish rest (a.request fault p)
          (if (a.answer fault p).isSome then failed else failed ++ [p.port])

end Actuators

end Publish

/-! ### The coordinator -/

/-- What a port asks for one stream. -/
structure StreamDemand where
  stream : MediaStreamId
  group : Group
  pixels : ℕ
  preference : Option SurfaceBitratePreference := none
  deriving DecidableEq

/-- What the coordinator knows of a port; `live` as long as the membership exists. -/
structure PortInventory where
  id : ℕ
  live : Bool := true
  control : ℕ
  limits : EncoderBitrateLimits
  demands : List StreamDemand := []
  attention : Dict Group GroupAttention := ∅
  focus : QualityFocus := {}

/-- Ports are listed in the order of their identities. -/
structure Coordinator where
  target : ℕ
  policy : BitrateAllocationPolicy := {}
  nextPort : Option ℕ := some 1
  ports : List PortInventory := []
  targets : Dict StreamKey ℕ := ∅
  priorities : Dict (ℕ × Group) Priority := ∅
  dirty : Bool := false

namespace PortInventory

variable (port : PortInventory)

/-- The priorities of the groups of a port. -/
def priorityOf (policy : BitrateAllocationPolicy) (now : Instant)
    (group : Group) (attention : GroupAttention) : Priority :=
  policy.priority attention (decide (port.focus.settled = some group)) now

/-- What a port reserves. -/
def reserved : ℕ := port.limits.minimum * port.demands.length

/-- The input of the division for one stream of a port. -/
def input (policy : BitrateAllocationPolicy)
    (priorities : Dict (ℕ × Group) Priority) (originals : Dict StreamKey ℕ)
    (demand : StreamDemand) : AllocationInput where
  key := (port.id, demand.stream)
  group := (port.id, .new demand.group demand.preference)
  pixels := demand.pixels
  areaWeight := (demand.preference.map fun value => policy.roleWeight value.role).getD 1
  limits := port.limits
  current := originals.lookup (port.id, demand.stream)
  weight :=
    (policy.weights ((priorities.lookup (port.id, demand.group)).getD .background)).toNat

/-- The groups that stay demanded keep their attention. -/
def setDemands (demands : List StreamDemand) : PortInventory :=
  { port with
    demands := demands
    attention := demands.foldl
      (fun attention demand => attention.insertNew demand.group {})
      (port.attention.retain fun group _ => demands.any fun demand => demand.group == group) }

def observe (attention : Dict Group GroupAttention) (now : Instant)
    (policy : BitrateAllocationPolicy) : PortInventory :=
  { port with
    focus := port.focus.observe attention now policy
    attention := port.attention.mapValues fun group _ => (attention.lookup group).getD {} }

end PortInventory

namespace Coordinator

def new (target : ℕ) (policy : BitrateAllocationPolicy) : Option Coordinator :=
  if policy.validate = true ∧ 0 < target then some { target := target, policy := policy } else none

variable (c : Coordinator)

def portOf (id : ℕ) : Option PortInventory :=
  c.ports.find? fun port => port.id == id

def modifyPort (id : ℕ) (f : PortInventory → PortInventory) : Coordinator :=
  { c with ports := c.ports.map fun port => if port.id = id then f port else port }

def advanceFocus (now : Instant) : Coordinator :=
  { c with
    ports := c.ports.map fun port =>
      { port with focus := port.focus.advance now c.policy.focusSettle } }

/-- The priority of some group is not the one that was published. -/
def changed (now : Instant) : Bool :=
  c.ports.any fun port =>
    port.attention.entries.any fun entry =>
      decide (c.priorities.lookup (port.id, entry.1) ≠
        some (port.priorityOf c.policy now entry.1 entry.2))

def retainLive : Coordinator :=
  { c with ports := c.ports.filter fun port => port.live }

def currentPriorities (now : Instant) : Dict (ℕ × Group) Priority :=
  c.ports.foldl (fun priorities port =>
      port.attention.entries.foldl (fun priorities entry =>
          priorities.insert (port.id, entry.1) (port.priorityOf c.policy now entry.1 entry.2))
        priorities) ∅

def allocationInputs (priorities : Dict (ℕ × Group) Priority)
    (originals : Dict StreamKey ℕ) : List AllocationInput :=
  c.ports.flatMap fun port => port.demands.map (port.input c.policy priorities originals)

/-- The port of every input is there. -/
def publications (inputs : List AllocationInput)
    (rates : Fin inputs.length → ℕ) : List Publication :=
  (List.finRange inputs.length).filterMap fun i =>
    (c.portOf (inputs.get i).key.1).map fun port =>
      ⟨port.id, port.control, (inputs.get i).key.2, rates i⟩

/-- Ports whose actuator failed lose their membership. -/
def expel (failed : List ℕ) : Coordinator :=
  { c with
    ports := c.ports.filter fun port => decide (port.id ∉ failed)
    targets := c.targets.retain fun key _ => decide (key.1 ∉ failed)
    priorities := c.priorities.retain fun key _ => decide (key.1 ∉ failed) }

/-- What the minima of all members need, with `count` streams instead of its own for one port. -/
def required (replacement : Option (ℕ × ℕ)) : ℕ :=
  ((c.ports.filter fun port => port.live).map fun port =>
    port.limits.minimum * ((replacement.filter fun r => decide (r.1 = port.id)).map (·.2)).getD
        port.demands.length).sum

/-- A sum beyond the 128 bits of the source is refused as well. -/
def checkMinimum (target : ℕ) (replacement : Option (ℕ × ℕ)) : Except BudgetError Unit :=
  if target < c.required replacement then .error (.insufficient target (c.required replacement))
  else .ok ()

end Coordinator

/-- The rates by stream. -/
def assignRates (inputs : List AllocationInput) (rates : Fin inputs.length → ℕ) :
    Dict StreamKey ℕ :=
  (List.finRange inputs.length).foldl
    (fun targets i => targets.insert (inputs.get i).key (rates i)) ∅

/-! ### Publishing -/

structure SharedBudget where
  coordinator : Coordinator
  actuators : Actuators := {}

/-- One division, and what came of publishing it. -/
structure Pass where
  targets : Dict StreamKey ℕ
  priorities : Dict (ℕ × Group) Priority
  actuators : Actuators
  failed : List ℕ

namespace SharedBudget

section Operations

variable (fault : ℕ → Bool) (w : SharedBudget)

def pass (originals : Dict StreamKey ℕ) (now : Instant) : Except BudgetError Pass :=
  let c := w.coordinator.retainLive
  let priorities := c.currentPriorities now
  let inputs := c.allocationInputs priorities originals
  (allocate c.target inputs.get).map fun rates =>
    let published := Actuators.publish fault (c.publications inputs rates) w.actuators []
    ⟨assignRates inputs rates, priorities, published.1, published.2⟩

def expel (pass : Pass) : SharedBudget :=
  ⟨w.coordinator.retainLive.expel pass.failed, pass.actuators⟩

def commit (pass : Pass) : SharedBudget :=
  ⟨{ w.coordinator.retainLive with
      targets := pass.targets
      priorities := pass.priorities
      dirty := false }, pass.actuators⟩

/-- Only ports that are there fail. -/
theorem publish_failed {pubs : List Publication} {a : Actuators} {failed : List ℕ} {id : ℕ}
    (h : id ∈ (Actuators.publish fault pubs a failed).2) :
    id ∈ failed ∨ ∃ p ∈ pubs, p.port = id := by
  induction pubs generalizing a failed with
  | nil => exact Or.inl h
  | cons p rest ih =>
      rw [Actuators.publish] at h
      split_ifs at h with hfailed hsome
      · exact (ih h).imp_right fun ⟨q, hq, hid⟩ => ⟨q, List.mem_cons_of_mem p hq, hid⟩
      · exact (ih h).imp_right fun ⟨q, hq, hid⟩ => ⟨q, List.mem_cons_of_mem p hq, hid⟩
      · rcases ih h with hmem | ⟨q, hq, hid⟩
        · rcases List.mem_append.mp hmem with hmem | hmem
          · exact Or.inl hmem
          · exact Or.inr ⟨p, List.mem_cons_self, (List.mem_singleton.mp hmem).symm⟩
        · exact Or.inr ⟨q, List.mem_cons_of_mem p hq, hid⟩

variable {originals : Dict StreamKey ℕ}

variable {fault} in
theorem pass_failed {w : SharedBudget} {now : Instant} {pass : Pass}
    (h : w.pass fault originals now = .ok pass) {id : ℕ} (hid : id ∈ pass.failed) :
    ∃ port ∈ w.coordinator.retainLive.ports, port.id = id := by
  rw [SharedBudget.pass] at h
  cases hrates : allocate w.coordinator.retainLive.target
      (w.coordinator.retainLive.allocationInputs
        (w.coordinator.retainLive.currentPriorities now) originals).get with
  | error e =>
      simp only [hrates, Except.map] at h
      cases h
  | ok rates =>
      simp only [hrates, Except.map] at h
      cases h
      rcases publish_failed fault hid with hnil | ⟨p, hp, rfl⟩
      · cases hnil
      · obtain ⟨i, -, hi⟩ := List.mem_filterMap.mp hp
        obtain ⟨port, hport, rfl⟩ := Option.map_eq_some_iff.mp hi
        exact ⟨port, List.mem_of_find?_eq_some hport, rfl⟩

variable {fault} in
/-- **A pass that fails leaves fewer ports.** -/
theorem length_expel_lt {w : SharedBudget} {now : Instant} {pass : Pass}
    (h : w.pass fault originals now = .ok pass) (hfailed : pass.failed ≠ []) :
    (w.expel pass).coordinator.ports.length < w.coordinator.ports.length := by
  obtain ⟨id, hid⟩ := List.exists_mem_of_ne_nil _ hfailed
  obtain ⟨port, hport, rfl⟩ := pass_failed h hid
  have hlive : w.coordinator.retainLive.ports.length ≤ w.coordinator.ports.length :=
    List.length_filter_le _ _
  refine Nat.lt_of_lt_of_le ?_ hlive
  refine List.length_filter_lt_length_iff_exists.mpr ⟨port, hport, ?_⟩
  simpa using hid

/-- Divide and publish until no actuator fails. -/
def republish (originals : Dict StreamKey ℕ) (now : Instant) (w : SharedBudget) :
    SharedBudget × Except BudgetError Unit :=
  match _h : w.pass fault originals now with
  | .error e => (⟨w.coordinator.retainLive, w.actuators⟩, .error e)
  | .ok pass =>
      if _hfailed : pass.failed = [] then (w.commit pass, .ok ())
      else republish originals now (w.expel pass)
termination_by w.coordinator.ports.length
decreasing_by exact length_expel_lt _h _hfailed

/-- Ordinary ticks only compare priorities. -/
def refreshAt (now : Instant) : SharedBudget × Except BudgetError Unit :=
  let c := w.coordinator.advanceFocus now
  if c.dirty = false ∧ c.changed now = false then (⟨c, w.actuators⟩, .ok ())
  else republish fault c.targets now ⟨{ c with dirty := true }, w.actuators⟩

/-! ### Operations -/

/-- Go on after a refresh that succeeded. -/
def andThen {α : Type} (r : SharedBudget × Except BudgetError Unit)
    (f : SharedBudget → SharedBudget × Except BudgetError α) :
    SharedBudget × Except BudgetError α :=
  match r.2 with
  | .error e => (r.1, .error e)
  | .ok () => f r.1

def setTarget (bitsPerSecond : ℕ) (now : Instant) : SharedBudget × Except BudgetError Unit :=
  if bitsPerSecond = 0 then (w, .error .zeroTarget)
  else
    andThen (w.refreshAt fault now) fun w =>
      match w.coordinator.checkMinimum bitsPerSecond none with
      | .error e => (w, .error e)
      | .ok () =>
          let c := w.coordinator
          refreshAt fault
            ⟨if c.target = bitsPerSecond then c
              else { c with target := bitsPerSecond, dirty := true }, w.actuators⟩ now

/-- The target, what is allocated of it, and to how many streams. -/
structure BudgetSnapshot where
  target : ℕ
  allocated : ℕ
  streams : ℕ
  deriving DecidableEq, Repr

def snapshot (now : Instant) : SharedBudget × Except BudgetError BudgetSnapshot :=
  andThen (w.refreshAt fault now) fun w =>
    (w, .ok ⟨w.coordinator.target, (w.coordinator.targets.entries.map (·.2)).sum,
      w.coordinator.targets.entries.length⟩)

/-- A registry joins the pool as a new port. -/
def attach (control : ℕ) (now : Instant) : SharedBudget × Except BudgetError ℕ :=
  andThen (w.refreshAt fault now) fun w =>
    match w.actuators.registries.lookup control, w.coordinator.nextPort with
    | none, _ => (w, .error .disconnected)
    | some registry, next =>
        if registry.connected = false then (w, .error .disconnected)
        else
          match next, registry.manage with
          | none, _ => (w, .error .portsExhausted)
          | some _, .error e => (w, .error e)
          | some id, .ok managed =>
              (⟨{ w.coordinator with
                  nextPort := if id + 1 < 2 ^ 64 then some (id + 1) else none
                  ports := w.coordinator.ports ++
                    [{ id := id, control := control, limits := registry.limits }] },
                { w.actuators with
                  registries := w.actuators.registries.insert control managed }⟩, .ok id)

def preflight (id count : ℕ) (now : Instant) : SharedBudget × Except BudgetError Unit :=
  andThen (w.refreshAt fault now) fun w =>
    match w.coordinator.portOf id with
    | none => (w, .error .retired)
    | some _ => (w, w.coordinator.checkMinimum w.coordinator.target (some (id, count)))

def updateInventory (id : ℕ) (demands : List StreamDemand) :
    SharedBudget × Except BudgetError Unit :=
  match w.coordinator.checkMinimum w.coordinator.target (some (id, demands.length)),
      w.coordinator.portOf id with
  | .error e, _ => (w, .error e)
  | .ok (), none => (w, .error .retired)
  | .ok (), some port =>
      if port.demands = demands then (w, .ok ())
      else
        (⟨{ w.coordinator.modifyPort id (·.setDemands demands) with dirty := true }, w.actuators⟩,
          .ok ())

def updateAttention (id : ℕ) (attention : Dict Group GroupAttention)
    (now : Instant) : SharedBudget × Except BudgetError Unit :=
  match w.coordinator.portOf id with
  | none => (w, .error .retired)
  | some _ =>
      let observed := w.coordinator.modifyPort id (·.observe attention now w.coordinator.policy)
      andThen (refreshAt fault ⟨observed, w.actuators⟩ now) fun w =>
        match w.coordinator.portOf id with
        | none => (w, .error .retired)
        | some _ => (w, .ok ())

/-- A membership goes away, at a moment when the coordinator may be borrowed. -/
def dropMembership (id : ℕ) (borrowed : Bool) (now : Instant) : SharedBudget :=
  let dropped : SharedBudget :=
    ⟨{ w.coordinator.modifyPort id ({ · with live := false }) with dirty := true }, w.actuators⟩
  if borrowed then dropped else (dropped.refreshAt fault now).1

end Operations

end SharedBudget

/-! ### What happens to a budget -/

inductive BudgetCall
  | create (control : ℕ) (limits : EncoderBitrateLimits)
  | disconnect (control : ℕ)
  | register (control : ℕ)
  | remove (control : ℕ) (stream : MediaStreamId)
  | attach (control : ℕ) (now : Instant)
  | preflight (id count : ℕ) (now : Instant)
  | updateInventory (id : ℕ) (demands : List StreamDemand)
  | updateAttention (id : ℕ) (attention : Dict Group GroupAttention) (now : Instant)
  | setTarget (bitsPerSecond : ℕ) (now : Instant)
  | snapshot (now : Instant)
  | drop (id : ℕ) (borrowed : Bool) (now : Instant)

namespace SharedBudget

/-- Something happens to one registry. -/
def modifyRegistry (w : SharedBudget) (control : ℕ) (f : Registry → Registry) : SharedBudget :=
  { w with
    actuators := { w.actuators with registries := w.actuators.registries.modify control f } }

/-- The membership of the port has not been dropped. -/
def Member (w : SharedBudget) (id : ℕ) : Prop :=
  ∀ port ∈ w.coordinator.ports, port.id = id → port.live = true

instance (w : SharedBudget) (id : ℕ) : Decidable (w.Member id) :=
  inferInstanceAs (Decidable (∀ port ∈ w.coordinator.ports, port.id = id → port.live = true))

/-- Only the owner of a membership uses it, and drops it once. -/
def step (fault : ℕ → Bool) (w : SharedBudget) : BudgetCall → SharedBudget
  | .create control limits =>
      { w with
        actuators := { w.actuators with
          registries := w.actuators.registries.insertNew control (.new limits) } }
  | .disconnect control => w.modifyRegistry control ({ · with connected := false })
  | .register control => w.modifyRegistry control (·.register)
  | .remove control stream => w.modifyRegistry control (·.remove stream)
  | .attach control now => (w.attach fault control now).1
  | .preflight id count now => if w.Member id then (w.preflight fault id count now).1 else w
  | .updateInventory id demands => if w.Member id then (w.updateInventory id demands).1 else w
  | .updateAttention id attention now =>
      if w.Member id then (w.updateAttention fault id attention now).1 else w
  | .setTarget bitsPerSecond now => (w.setTarget fault bitsPerSecond now).1
  | .snapshot now => (w.snapshot fault now).1
  | .drop id borrowed now => if w.Member id then w.dropMembership fault id borrowed now else w

end SharedBudget

end Encoded
