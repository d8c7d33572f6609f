/-
**Agreement of the two gamepad endpoints.**

A `GamepadController` and a `GamepadSource` are joined by two first-in first-out channels, one for
requests and one for statuses.  Calls on the controller, deliveries, watchdog expiries and device
failures interleave in any order.

Main definitions: `Link`, `Link.step`, `Orderly`, `Link.Inv`, `Link.Agreement`.

Main results:

* `Link.Inv.step` — every event preserves the invariant;
* `Link.agreement_of_reachable` — **the endpoints agree in every reachable state**.
-/

import Mathlib.Data.List.Induction
import Mathlib.Order.Lattice
import Weld.Gamepad
import Weld.History
import Weld.Transition

namespace Gamepad

open GamepadMode

/-! ### Orderly device logs -/

/-- What may be asked of the provider and its devices after the calls of `log`: a device is opened
when none is open, every other call is made on the one open device, a state belongs to the
generation of that device, and a device is destroyed right after its neutral state. -/
def Allowed (log : List DeviceEvent) : DeviceEvent → Prop
  | .opened _ => held log = []
  | .applied d r _ => held log = [d] ∧ r = d
  | .neutralized d => held log = [d]
  | .dropped d => held log = [d] ∧ ∃ log', log = log' ++ [.neutralized d]

/-- Every call of the log was allowed when it was made. -/
def Orderly (log : List DeviceEvent) : Prop := History.Each Allowed log

theorem orderly_nil : Orderly [] := History.each_nil

variable {log : List DeviceEvent}

theorem Orderly.concat {e : DeviceEvent} (h : Orderly log) (he : Allowed log e) : Orderly (log ++ [e]) :=
  History.Each.concat h he

/-- At most one device is open after the calls of an orderly log. -/
theorem Orderly.held_length_le (h : Orderly log) : (held log).length ≤ 1 := by
  rcases List.eq_nil_or_concat' log with rfl | ⟨log, e, rfl⟩
  · simp
  · have he : Allowed log e := h log e [] rfl
    rw [held_concat]
    cases e with
    | opened g => simp only [Allowed] at he; simp [hold, he]
    | applied d r st => simp only [Allowed] at he; simp [hold, he.1]
    | neutralized d => simp only [Allowed] at he; simp [hold, he]
    | dropped d => simp only [Allowed] at he; simp [hold, he.1]

/-! ### The source keeps its log orderly -/

variable {c : Capture}

namespace GamepadSource

/-- What the log says about the devices: the open device is that of the capture, and devices are
opened for larger and larger generations, all of them below the floor. -/
structure LogInv (s : GamepadSource) : Prop where
  orderly : Orderly s.devices
  held_eq : held s.devices = (s.capture.map Capture.generation).toList
  openings_le : ∀ g ∈ openings s.devices, g ≤ s.floor
  openings_lt : (openings s.devices).Pairwise (· < ·)

/-- The source invariant: the capture is the one the floor was last raised for. -/
structure Inv (s : GamepadSource) : Prop extends LogInv s where
  floor_eq : ∀ c, s.capture = some c → c.generation = s.floor

theorem inv_init (provider : Bool) : Inv { provider } where
  orderly := orderly_nil
  held_eq := rfl
  openings_le := by simp
  openings_lt := by simp
  floor_eq := by simp

variable (s : GamepadSource) (st : GamepadCaptureState)

@[simp] theorem stop_capture : (s.stop st).1.capture = none := by
  unfold stop; cases h : s.capture <;> simp [h]

@[simp] theorem stop_floor : (s.stop st).1.floor = s.floor := by
  unfold stop; cases s.capture <;> rfl

@[simp] theorem stop_provider : (s.stop st).1.provider = s.provider := by
  unfold stop; cases s.capture <;> rfl

@[simp] theorem openings_stop : openings (s.stop st).1.devices = openings s.devices := by
  unfold stop; cases s.capture <;> simp [openings]

variable {s : GamepadSource} {g : ℕ} {request : GamepadRequest} {now : Instant}
  {openOk writeOk : Bool}

/-- A status sent by `stop` carries the reason it was given. -/
theorem stop_status {st : GamepadCaptureState} {x : GamepadStatus}
    (h : (s.stop st).2 = some x) : ∃ g, x = .capture g st := by
  unfold stop at h
  cases hc : s.capture with
  | none => simp [hc] at h
  | some c => exact ⟨c.generation, by simpa [hc] using h.symm⟩

theorem LogInv.stop (h : s.LogInv) (st : GamepadCaptureState) : (s.stop st).1.LogInv := by
  cases hc : s.capture with
  | none => simpa [GamepadSource.stop, hc] using h
  | some c =>
      have hheld : held s.devices = [c.generation] := by simp [h.held_eq, hc]
      have hneut : held (s.devices ++ [.neutralized c.generation]) = [c.generation] := by
        simp [hold, hheld]
      refine ⟨?_, ?_, ?_, ?_⟩
      · have hn : Orderly (s.devices ++ [.neutralized c.generation]) := h.orderly.concat hheld
        have hd : Orderly (s.devices ++ [.neutralized c.generation] ++ [.dropped c.generation]) :=
          hn.concat ⟨hneut, _, rfl⟩
        simpa only [GamepadSource.stop, hc] using hd
      · simp only [GamepadSource.stop, hc, held_concat, hold, hheld, List.erase_cons_head]
        rfl
      · simpa using h.openings_le
      · simpa using h.openings_lt

theorem Inv.stop (h : s.LogInv) (st : GamepadCaptureState) : (s.stop st).1.Inv :=
  { h.stop st with floor_eq := by simp }

theorem Inv.expire (h : s.Inv) (now : Instant) : (s.expire now).1.Inv := by
  unfold GamepadSource.expire
  split
  · exact Inv.stop h.toLogInv _
  · exact h

/-- Raising the floor keeps what the log says. -/
theorem LogInv.raise (h : s.LogInv) (hg : s.floor ≤ g) : LogInv { s with floor := g } where
  orderly := h.orderly
  held_eq := h.held_eq
  openings_le := fun x hx => le_trans (h.openings_le x hx) hg
  openings_lt := h.openings_lt

/-- Opening the device of a generation the floor was just raised for. -/
theorem LogInv.open (h : s.LogInv) (hcap : s.capture = none)
    (hfresh : ∀ x ∈ openings s.devices, x < g) (hfloor : s.floor = g) (deadline : Instant) :
    Inv { s with
      capture := some ⟨g, deadline⟩
      devices := s.devices ++ [.opened g] } where
  orderly := h.orderly.concat (by simp [Allowed, h.held_eq, hcap])
  held_eq := by simp [hold, h.held_eq, hcap]
  openings_le := by
    intro x hx
    rw [openings_append, List.mem_append] at hx
    rcases hx with hx | hx
    · exact h.openings_le x hx
    · obtain rfl : x = g := by simpa [openings] using hx
      exact hfloor.ge
  openings_lt := by
    rw [openings_append, List.pairwise_append]
    refine ⟨h.openings_lt, by simp [openings], ?_⟩
    intro a ha b hb
    obtain rfl : b = g := by simpa [openings] using hb
    exact hfresh a ha
  floor_eq := by simp [hfloor]

/-- Writing a state to the device of the capture. -/
theorem LogInv.apply (h : s.LogInv) (hc : s.capture = some c) (state : GamepadState) :
    LogInv { s with devices := s.devices ++ [.applied c.generation c.generation state] } where
  orderly := h.orderly.concat ⟨by simp [h.held_eq, hc], rfl⟩
  held_eq := by simp [hold, h.held_eq]
  openings_le := by simpa [openings] using h.openings_le
  openings_lt := by simpa [openings] using h.openings_lt

/-- **The source invariant survives every request**, whatever the provider answers. -/
theorem Inv.accept (h : s.Inv) (request : GamepadRequest) (now : Instant)
    (openOk writeOk : Bool) : (s.accept request now openOk writeOk).1.Inv := by
  cases request with
  | beginCapture g =>
      by_cases hle : g ≤ s.floor
      · simpa [GamepadSource.accept, hle] using h
      have hraise : LogInv (({ s with floor := g } : GamepadSource).stop .stopped).1 :=
        (h.toLogInv.raise (by omega)).stop _
      have hstopped : Inv (({ s with floor := g } : GamepadSource).stop .stopped).1 :=
        { hraise with floor_eq := by simp }
      have hfresh : ∀ x ∈ openings s.devices, x < g := fun x hx =>
        lt_of_le_of_lt (h.openings_le x hx) (by omega)
      simp only [GamepadSource.accept, hle, if_false]
      split
      · split
        · exact hraise.open (by simp) (by simpa using hfresh) (by simp) _
        · exact hstopped
      · exact hstopped
  | state g st =>
      cases hf : s.capture.filter (fun c => c.generation == g) with
      | none => simpa [GamepadSource.accept, hf] using h
      | some c =>
          obtain ⟨hc, hg⟩ := Option.filter_eq_some_iff.1 hf
          obtain rfl : c.generation = g := by simpa using hg
          have happly := h.toLogInv.apply hc st
          simp only [GamepadSource.accept, hf]
          split
          · exact { orderly := happly.orderly
                    held_eq := by simpa [hc] using happly.held_eq
                    openings_le := happly.openings_le
                    openings_lt := happly.openings_lt
                    floor_eq := by simpa using h.floor_eq c hc }
          · exact Inv.stop happly _
  | endCapture g =>
      have hraise : LogInv { s with floor := max s.floor g } := h.toLogInv.raise (le_max_left ..)
      simp only [GamepadSource.accept]
      split
      · exact Inv.stop hraise _
      · rename_i hany
        refine { hraise with floor_eq := ?_ }
        intro c hc
        have hlt : ¬ c.generation ≤ g := fun hle => hany (by simp [show s.capture = some c from hc, hle])
        have hfloor : c.generation = s.floor := h.floor_eq c hc
        simp only
        omega

/-! ### What a request changes -/

/-- The floor only rises, and at most to the generation of the request. -/
theorem accept_floor (s : GamepadSource) (request : GamepadRequest) (now : Instant)
    (openOk writeOk : Bool) :
    s.floor ≤ (s.accept request now openOk writeOk).1.floor ∧
      (s.accept request now openOk writeOk).1.floor ≤ max s.floor request.generation := by
  cases request with
  | beginCapture g =>
      simp only [accept, GamepadRequest.generation]
      split_ifs <;> simp <;> omega
  | state g st =>
      simp only [accept, GamepadRequest.generation]
      split
      · exact ⟨le_rfl, le_max_left ..⟩
      · split_ifs <;> simp
  | endCapture g =>
      simp only [accept, GamepadRequest.generation]
      split_ifs <;> simp

/-- Only a `Begin` opens a device, and it opens the device of its own generation. -/
theorem mem_openings_accept (h : g ∈ openings (s.accept request now openOk writeOk).1.devices) :
    g ∈ openings s.devices ∨ request = .beginCapture g := by
  cases request with
  | beginCapture g' =>
      simp only [accept] at h
      split_ifs at h
      all_goals simp [openings_append] at h
      · exact Or.inl h
      · rcases h with h | h
        · exact Or.inl h
        · obtain rfl : g = g' := by simpa [openings] using h
          exact Or.inr rfl
      · exact Or.inl h
      · exact Or.inl h
  | state g' st =>
      simp only [accept] at h
      split at h
      · exact Or.inl h
      · split_ifs at h <;> simp only [openings_stop, openings_append] at h <;>
          exact Or.inl (by simpa [openings] using h)
  | endCapture g' =>
      simp only [accept] at h
      split_ifs at h <;> simp at h <;> exact Or.inl h

/-- A capture is announced as active only once the floor has reached its generation. -/
theorem accept_active (h : (s.accept request now openOk writeOk).2 = some (.capture g .active)) :
    g ≤ (s.accept request now openOk writeOk).1.floor := by
  cases request with
  | beginCapture g' =>
      simp only [accept] at h ⊢
      split_ifs at h ⊢ <;> simp_all
  | state g' st =>
      simp only [accept] at h
      split at h
      · simp at h
      · split_ifs at h
        obtain ⟨x, hx⟩ := stop_status h
        simp at hx
  | endCapture g' =>
      simp only [accept] at h
      split_ifs at h
      obtain ⟨x, hx⟩ := stop_status h
      simp at hx

/-- Without a capture, a request below the floor changes nothing. -/
theorem accept_of_retired (hcap : s.capture = none) (hg : request.generation ≤ s.floor) :
    (s.accept request now openOk writeOk).1.capture = none := by
  cases request with
  | beginCapture g => simp [accept, show g ≤ s.floor from hg, hcap]
  | state | endCapture => simp [accept, hcap]

/-- An `End` retires every capture up to its generation. -/
theorem accept_endCapture (hle : ∀ c, s.capture = some c →
    c.generation ≤ g) (now : Instant) (openOk writeOk : Bool) :
    g ≤ (s.accept (.endCapture g) now openOk writeOk).1.floor ∧
      (s.accept (.endCapture g) now openOk writeOk).1.capture = none := by
  cases hc : s.capture with
  | none => simp [accept, hc]
  | some c => simp [accept, hc, hle c hc]

@[simp] theorem expire_floor (s : GamepadSource) (now : Instant) :
    (s.expire now).1.floor = s.floor := by
  unfold expire; split <;> simp

@[simp] theorem openings_expire (s : GamepadSource) (now : Instant) :
    openings (s.expire now).1.devices = openings s.devices := by
  unfold expire; split <;> simp

/-- The watchdog only removes the capture. -/
theorem expire_capture (h : (s.expire now).1.capture = some c) : s.capture = some c := by
  unfold expire at h
  split at h
  · simp at h
  · exact h

/-- The watchdog never announces an active capture. -/
theorem expire_status {x : GamepadStatus}
    (h : (s.expire now).2 = some x) : ∃ g, x = .capture g .timedOut := by
  unfold expire at h
  split at h
  · exact stop_status h
  · simp at h

end GamepadSource

/-! ### The controller -/

namespace Pending

@[simp] theorem stop_generation (p : Pending) : p.stop.generation = p.generation := by
  unfold stop; split <;> rfl

@[simp] theorem stop_queue (p : Pending) : p.stop.queue = [] := by
  unfold stop; split <;> rfl

@[simp] theorem stop_current (p : Pending) : p.stop.mode.current = none := by
  unfold stop
  split
  · rfl
  · assumption

/-- Stopping leaves an `End` for the capture that was running. -/
theorem stop_endRequest (p : Pending) : p.stop.endRequest = (p.mode.current).or p.endRequest := by
  unfold stop; split <;> simp [*]

/-- What the controller keeps about its own generation. -/
structure Inv (p : Pending) (begun : List ℕ) : Prop where
  begun_lt : begun.Pairwise (· < ·)
  begun_le : ∀ g ∈ begun, g ≤ p.generation
  queue_le : ∀ r ∈ p.queue, r.generation ≤ p.generation
  queue_begun : ∀ g, .beginCapture g ∈ p.queue → g ∈ begun
  end_le : ∀ g, p.endRequest = some g → g ≤ p.generation
  current_eq : ∀ g, p.mode.current = some g → g = p.generation
  idle_queue : p.mode.current = none → p.queue = []

variable {p : Pending} {begun : List ℕ}

section

variable (h : p.Inv begun)
include h

theorem Inv.stop : p.stop.Inv begun where
  begun_lt := h.begun_lt
  begun_le := by simpa using h.begun_le
  queue_le := by simp
  queue_begun := by simp
  end_le := by
    intro g hg
    rw [stop_endRequest] at hg
    rw [stop_generation]
    cases hm : p.mode.current with
    | none => exact h.end_le g (by simpa [hm] using hg)
    | some g' =>
        obtain rfl : g' = g := by simpa [hm] using hg
        exact (h.current_eq g' hm).le
  current_eq := by simp
  idle_queue := by simp

/-- A stopped controller has its `End` waiting, or was idle before. -/
theorem Inv.stop_retired :
    p.stop.endRequest = some p.generation ∨
      (p.stop.endRequest = p.endRequest ∧ p.mode.current = none) := by
  rw [p.stop_endRequest]
  cases hm : p.mode.current with
  | none => exact Or.inr ⟨by simp, rfl⟩
  | some g => exact Or.inl (by simp [h.current_eq g hm])

omit h in
/-- `begin` either refuses, or an idle controller enters the next generation. -/
theorem begin_cases (p : Pending) :
    p.begin = (p, none) ∨
      (p.mode.current = none ∧ p.begin = ({ p with
            generation := p.generation + 1
            mode := .pending (p.generation + 1)
            queue := p.queue ++ [.beginCapture (p.generation + 1)] },
          some (p.generation + 1))) := by
  simp only [begin]
  split
  · rename_i hm
    split
    · exact Or.inr ⟨by simp [hm, current], rfl⟩
    · exact Or.inl rfl
  · rename_i st hm
    split
    · exact Or.inr ⟨by simp [hm, current], rfl⟩
    · exact Or.inl rfl
  · exact Or.inl rfl

theorem Inv.begin : p.begin.1.Inv (begun ++ p.begin.2.toList) := by
  obtain heq | ⟨hidle, heq⟩ := p.begin_cases
  · simpa [heq] using h
  have hq : p.queue = [] := h.idle_queue hidle
  rw [heq]
  constructor
  case begun_lt =>
    have hb : ∀ a ∈ begun, a < p.generation + 1 := fun a ha =>
      Nat.lt_succ_of_le (h.begun_le a ha)
    simpa [List.pairwise_append, h.begun_lt] using hb
  case begun_le =>
    intro g hg
    rcases List.mem_append.1 hg with hg | hg
    · exact Nat.le_succ_of_le (h.begun_le g hg)
    · exact le_of_eq (by simpa using hg)
  case queue_le => simp [hq, GamepadRequest.generation]
  case queue_begun => simp [hq]
  case end_le => exact fun g hg => Nat.le_succ_of_le (h.end_le g hg)
  case current_eq => simp [current]
  case idle_queue => simp [current]

/-- Queueing a state of the current generation. -/
theorem Inv.push {g : ℕ} (hm : p.mode = .active g) {queue : List GamepadRequest}
    (hq : ∀ r ∈ queue, r ∈ p.queue) (state : GamepadState) (now : Instant) :
    Inv { p with queue := queue ++ [.state g state], lastSample := some (state, now) } begun where
  begun_lt := h.begun_lt
  begun_le := h.begun_le
  queue_le := by
    intro r hr
    rcases List.mem_append.1 hr with hr | hr
    · exact h.queue_le r (hq r hr)
    · obtain rfl : r = .state g state := by simpa using hr
      exact (h.current_eq g (by rw [hm]; rfl)).le
  queue_begun := by
    intro g' hg'
    rcases List.mem_append.1 hg' with hg' | hg'
    · exact h.queue_begun g' (hq _ hg')
    · simp at hg'
  end_le := h.end_le
  current_eq := h.current_eq
  idle_queue := by
    intro hidle
    simp [hm, current] at hidle

theorem Inv.sample (g : ℕ) (state : GamepadState) (now : Instant) : (p.sample g state now).1.Inv begun := by
  simp only [Pending.sample]
  split_ifs with hm
  · exact h
  · exact h
  · exact h.push (by simpa using hm) (fun r hr => List.dropLast_subset _ hr) state now
  · exact h.stop
  · exact h.push (by simpa using hm) (fun r hr => hr) state now

theorem Inv.pop : p.pop.1.Inv begun := by
  unfold Pending.pop
  split
  · exact { h with end_le := by simp }
  · split
    · exact h
    · rename_i r queue hq
      refine { h with queue_le := ?_, queue_begun := ?_, idle_queue := ?_ }
      · exact fun r' hr' => h.queue_le r' (by rw [hq]; exact List.mem_cons_of_mem _ hr')
      · exact fun g hg => h.queue_begun g (by rw [hq]; exact List.mem_cons_of_mem _ hg)
      · intro hidle
        simp [h.idle_queue hidle] at hq

omit h in
/-- A status is ignored, makes the controller ready, announces the capture it waits for, or ends
that capture. -/
theorem observe_cases (p : Pending) (status : GamepadStatus) :
    p.observe status = p ∨
      (p.mode = .unavailable ∧ p.observe status = { p with mode := .ready }) ∨
      (∃ g, status = .capture g .active ∧ p.mode.current = some g ∧
        p.observe status = { p with mode := .active g }) ∨
      (∃ g st, status = .capture g st ∧ p.mode.current = some g ∧
        p.observe status = { p.stop with mode := .rejected st }) := by
  unfold observe
  split
  · split
    · rename_i hm
      exact Or.inr (Or.inl ⟨hm, rfl⟩)
    · exact Or.inl rfl
  · rename_i g st
    split
    · rename_i hcur
      split
      · rename_i hst
        exact Or.inr (Or.inr (Or.inl ⟨g, by rw [hst], hcur, rfl⟩))
      · exact Or.inr (Or.inr (Or.inr ⟨g, st, rfl, hcur, rfl⟩))
    · exact Or.inl rfl

theorem Inv.observe (status : GamepadStatus) : (p.observe status).Inv begun := by
  obtain heq | ⟨hm, heq⟩ | ⟨g, -, hcur, heq⟩ | ⟨g, st, -, -, heq⟩ := p.observe_cases status
  all_goals rw [heq]
  · exact h
  · refine { h with current_eq := by simp [current], idle_queue := fun _ => ?_ }
    exact h.idle_queue (by rw [hm]; rfl)
  · refine { h with current_eq := ?_, idle_queue := by simp [current] }
    intro g' hg'
    obtain rfl : g = g' := by simpa [current] using hg'
    exact h.current_eq g hcur
  · exact { h.stop with current_eq := by simp [current], idle_queue := by simp }

end

end Pending

/-! ### The system -/

/-- Both endpoints, the two channels (oldest message first) and the generations `begin` has
returned so far. -/
structure Link where
  controller : Pending := {}
  source : GamepadSource := {}
  requests : List GamepadRequest := []
  statuses : List GamepadStatus := []
  begun : List ℕ := []

/-- The initial state, over a desktop with or without a native provider. -/
def Link.init (provider : Bool) : Link := { source := { provider } }

inductive LinkEvent
  /-- `GamepadController::begin`. -/
  | begin
  /-- `GamepadController::sample`. -/
  | sample (generation : ℕ) (state : GamepadState) (now : Instant)
  /-- `GamepadController::stop`. -/
  | stop
  /-- The receiving relay pops one request onto the wire. -/
  | pop
  /-- The source relay announces the provider. -/
  | advertise
  /-- The source relay runs the watchdog. -/
  | expire (now : Instant)
  /-- The oldest request reaches the source relay. -/
  | deliverRequest (now : Instant) (openOk writeOk : Bool)
  /-- The oldest status reaches the controller. -/
  | deliverStatus

namespace Link

/-- The source side moved, and its status was sent. -/
def settle (s : Link) (r : GamepadSource × Option GamepadStatus) : Link :=
  { s with source := r.1, statuses := s.statuses ++ r.2.toList }

def step (s : Link) : LinkEvent → Link
  | .begin =>
      let r := s.controller.begin
      { s with controller := r.1, begun := s.begun ++ r.2.toList }
  | .sample generation state now =>
      { s with controller := (s.controller.sample generation state now).1 }
  | .stop => { s with controller := s.controller.stop }
  | .pop =>
      let r := s.controller.pop
      { s with controller := r.1, requests := s.requests ++ r.2.toList }
  | .advertise => s.settle s.source.advertise
  | .expire now => s.settle (s.source.expire now)
  | .deliverRequest now openOk writeOk =>
      match s.requests with
      | [] => s
      | request :: requests =>
          -- the relay runs the watchdog before it hands the request on
          let s := ({ s with requests } : Link).settle (s.source.expire now)
          s.settle (s.source.accept request now openOk writeOk)
  | .deliverStatus =>
      match s.statuses with
      | [] => s
      | status :: statuses =>
          { s with statuses, controller := s.controller.observe status }

/-- The last generation is over: its `End` is waiting in the mailbox or on the wire, or it has
arrived and nothing is captured any more. -/
def Retired (s : Link) : Prop :=
  s.controller.endRequest = some s.controller.generation ∨
    .endCapture s.controller.generation ∈ s.requests ∨
      (s.controller.generation ≤ s.source.floor ∧ s.source.capture = none)

/-- **The invariant of the system.** -/
structure Inv (s : Link) : Prop where
  controller : s.controller.Inv s.begun
  source : s.source.Inv
  requests_le : ∀ r ∈ s.requests, r.generation ≤ s.controller.generation
  requests_begun : ∀ g, .beginCapture g ∈ s.requests → g ∈ s.begun
  openings_begun : ∀ g ∈ openings s.source.devices, g ∈ s.begun
  floor_le : s.source.floor ≤ s.controller.generation
  statuses_le : ∀ g, .capture g .active ∈ s.statuses → g ≤ s.source.floor
  active_le : ∀ g, s.controller.mode = .active g → g ≤ s.source.floor
  retired : s.controller.mode.current = none → s.Retired

theorem inv_init (provider : Bool) : (init provider).Inv where
  controller := by constructor <;> simp [init, current]
  source := GamepadSource.inv_init provider
  requests_le := by simp [init]
  requests_begun := by simp [init]
  openings_begun := by simp [init]
  floor_le := by simp [init]
  statuses_le := by simp [init]
  active_le := by simp [init]
  retired := fun _ => Or.inr (Or.inr ⟨by simp [init], by simp [init]⟩)

variable {s : Link}

/-- The current capture never outruns the generations the controller has issued. -/
theorem Inv.capture_le (h : s.Inv) (hc : s.source.capture = some c) :
    c.generation ≤ s.controller.generation :=
  (h.source.floor_eq c hc).trans_le h.floor_le

/-- A move of the source side keeps the invariant when it keeps what is known about the floor, the
openings, the status and a retired capture. -/
theorem Inv.settle (h : s.Inv) {r : GamepadSource × Option GamepadStatus}
    (hsource : r.1.Inv) (hmono : s.source.floor ≤ r.1.floor)
    (hle : r.1.floor ≤ s.controller.generation)
    (hopen : ∀ g ∈ openings r.1.devices, g ∈ s.begun)
    (hstatus : ∀ g, r.2 = some (.capture g .active) → g ≤ r.1.floor)
    (hretired : s.source.capture = none → s.controller.generation ≤ s.source.floor →
      r.1.capture = none) : (s.settle r).Inv where
  controller := h.controller
  source := hsource
  requests_le := h.requests_le
  requests_begun := h.requests_begun
  openings_begun := hopen
  floor_le := hle
  statuses_le := by
    intro g hg
    rcases List.mem_append.1 hg with hg | hg
    · exact le_trans (h.statuses_le g hg) hmono
    · exact hstatus g (by simpa using hg)
  active_le := fun g hg => le_trans (h.active_le g hg) hmono
  retired := by
    intro hidle
    rcases h.retired hidle with hr | hr | ⟨hfloor, hcap⟩
    · exact Or.inl hr
    · exact Or.inr (Or.inl hr)
    · exact Or.inr (Or.inr ⟨le_trans hfloor hmono, hretired hcap hfloor⟩)

theorem Inv.begin (h : s.Inv) : (s.step .begin).Inv := by
  have hc := h.controller.begin
  obtain heq | ⟨hidle, heq⟩ := s.controller.begin_cases
  · simpa [Link.step, heq] using h
  · rw [heq] at hc
    simp only [Link.step, heq]
    exact
      { controller := hc
        source := h.source
        requests_le := fun r hr => Nat.le_succ_of_le (h.requests_le r hr)
        requests_begun := fun g hg => List.mem_append_left _ (h.requests_begun g hg)
        openings_begun := fun g hg => List.mem_append_left _ (h.openings_begun g hg)
        floor_le := Nat.le_succ_of_le h.floor_le
        statuses_le := h.statuses_le
        active_le := by simp
        retired := by simp [current] }

theorem Inv.pop (h : s.Inv) : (s.step .pop).Inv := by
  have hc := h.controller.pop
  unfold Pending.pop at hc
  simp only [Link.step, Pending.pop]
  split at hc
  · rename_i g hg
    refine { h with controller := hc, requests_le := ?_, requests_begun := ?_, retired := ?_ }
    · intro r hr
      rcases List.mem_append.1 hr with hr | hr
      · exact h.requests_le r hr
      · obtain rfl : r = .endCapture g := by simpa using hr
        exact h.controller.end_le g hg
    · intro g' hg'
      rcases List.mem_append.1 hg' with hg' | hg'
      · exact h.requests_begun g' hg'
      · simp at hg'
    · intro hidle
      -- the `End` that was waiting is now on the wire
      rcases h.retired hidle with hr | hr | hr
      · obtain rfl : g = s.controller.generation := by simpa [hg] using hr
        exact Or.inr (Or.inl (by simp))
      · exact Or.inr (Or.inl (List.mem_append_left _ hr))
      · exact Or.inr (Or.inr hr)
  · split at hc
    · simpa using h
    · rename_i hnone r queue hq
      refine { h with controller := hc, requests_le := ?_, requests_begun := ?_, retired := ?_ }
      · intro r' hr'
        rcases List.mem_append.1 hr' with hr' | hr'
        · exact h.requests_le r' hr'
        · obtain rfl : r' = r := by simpa using hr'
          exact h.controller.queue_le r' (by simp [hq])
      · intro g hg
        rcases List.mem_append.1 hg with hg | hg
        · exact h.requests_begun g hg
        · obtain rfl : .beginCapture g = r := by simpa using hg
          exact h.controller.queue_begun g (by simp [hq])
      · intro hidle
        simp [h.controller.idle_queue hidle] at hq

/-- Replacing the controller by one of the same generation. -/
theorem Inv.control (h : s.Inv) {p : Pending} (hp : p.Inv s.begun)
    (hgen : p.generation = s.controller.generation)
    (hactive : ∀ g, p.mode = .active g → g ≤ s.source.floor)
    (hretired : p.mode.current = none → p.endRequest = some p.generation ∨
      (p.endRequest = s.controller.endRequest ∧ s.controller.mode.current = none)) :
    ({ s with controller := p } : Link).Inv where
  controller := hp
  source := h.source
  requests_le := fun r hr => hgen ▸ h.requests_le r hr
  requests_begun := h.requests_begun
  openings_begun := h.openings_begun
  floor_le := hgen ▸ h.floor_le
  statuses_le := h.statuses_le
  active_le := hactive
  retired := by
    intro hidle
    rcases hretired hidle with hend | ⟨hend, hold⟩
    · exact Or.inl hend
    · simpa [Retired, hend, hgen] using h.retired hold

theorem Inv.stop (h : s.Inv) : (s.step .stop).Inv := by
  refine h.control h.controller.stop (by simp) ?_ ?_
  · intro g hg
    have hcur := s.controller.stop_current
    rw [hg] at hcur
    simp [current] at hcur
  · intro _
    simpa using h.controller.stop_retired

theorem Inv.sample (h : s.Inv) (g : ℕ) (state : GamepadState) (now : Instant) :
    (s.step (.sample g state now)).Inv := by
  have hc := h.controller.sample g state now
  simp only [Link.step]
  simp only [Pending.sample] at hc ⊢
  split_ifs at hc ⊢ with hm
  · exact h
  · exact h
  · exact h.control hc rfl h.active_le (fun hidle => Or.inr ⟨rfl, hidle⟩)
  · exact h.stop
  · exact h.control hc rfl h.active_le (fun hidle => Or.inr ⟨rfl, hidle⟩)

/-- The system after the oldest status has left its channel. -/
theorem Inv.popStatus (h : s.Inv) {status : GamepadStatus}
    {statuses : List GamepadStatus} (hs : s.statuses = status :: statuses) :
    ({ s with statuses } : Link).Inv :=
  { h with statuses_le := fun g hg => h.statuses_le g (by rw [hs]; exact List.mem_cons_of_mem _ hg) }

theorem Inv.deliverStatus (h : s.Inv) : (s.step .deliverStatus).Inv := by
  simp only [Link.step]
  split
  · exact h
  rename_i status statuses hs
  have hp := h.popStatus hs
  have hc := h.controller.observe status
  obtain heq | ⟨hm, heq⟩ | ⟨g, hstat, hcur, heq⟩ | ⟨g, st, -, -, heq⟩ :=
    s.controller.observe_cases status
  all_goals rw [heq] at hc ⊢
  · exact hp
  · refine hp.control hc rfl (by simp) (fun _ => Or.inr ⟨rfl, ?_⟩)
    simp [hm, current]
  · -- the announcement of an active capture, which the floor backs
    refine hp.control hc rfl ?_ (by simp [current])
    intro g' hg'
    obtain rfl : g = g' := by simpa using hg'
    exact h.statuses_le g (by simp [hs, hstat])
  · -- a capture that is over was stopped, which leaves its `End`
    refine hp.control hc (by simp) (by simp) (fun _ => ?_)
    simpa using h.controller.stop_retired

theorem Inv.expire (h : s.Inv) (now : Instant) : (s.settle (s.source.expire now)).Inv := by
  refine h.settle (h.source.expire now) (by simp) (by simpa using h.floor_le)
    (by simpa using h.openings_begun) ?_ ?_
  · intro g hg
    obtain ⟨x, hx⟩ := GamepadSource.expire_status hg
    simp at hx
  · intro hcap _
    cases hc : (s.source.expire now).1.capture with
    | none => rfl
    | some c => simp [GamepadSource.expire_capture hc] at hcap

theorem Inv.advertise (h : s.Inv) : (s.step .advertise).Inv := by
  simp only [Link.step, GamepadSource.advertise]
  split
  · have hsource : GamepadSource.Inv { s.source with advertised := true } :=
      { orderly := h.source.orderly
        held_eq := h.source.held_eq
        openings_le := h.source.openings_le
        openings_lt := h.source.openings_lt
        floor_eq := h.source.floor_eq }
    exact h.settle hsource le_rfl h.floor_le h.openings_begun (by simp) (fun hcap _ => hcap)
  · exact h.settle h.source le_rfl h.floor_le h.openings_begun (by simp) (fun hcap _ => hcap)

/-- The system after the oldest request has left its channel and was handed to the source. -/
theorem Inv.accept {request : GamepadRequest} {requests : List GamepadRequest}
    (h : ({ s with requests := request :: requests } : Link).Inv) (now : Instant)
    (openOk writeOk : Bool) :
    (({ s with requests } : Link).settle (s.source.accept request now openOk writeOk)).Inv := by
  have hreq : request.generation ≤ s.controller.generation := h.requests_le request (by simp)
  obtain ⟨hmono, hle⟩ := s.source.accept_floor request now openOk writeOk
  have hfloor : (s.source.accept request now openOk writeOk).1.floor ≤ s.controller.generation :=
    le_trans hle (max_le h.floor_le hreq)
  constructor
  case controller => exact h.controller
  case source => exact GamepadSource.Inv.accept h.source request now openOk writeOk
  case requests_le => exact fun r hr => h.requests_le r (List.mem_cons_of_mem _ hr)
  case requests_begun => exact fun g hg => h.requests_begun g (List.mem_cons_of_mem _ hg)
  case openings_begun =>
    intro g hg
    rcases GamepadSource.mem_openings_accept hg with hg | rfl
    · exact h.openings_begun g hg
    · exact h.requests_begun g (by simp)
  case floor_le => exact hfloor
  case statuses_le =>
    intro g hg
    rcases List.mem_append.1 hg with hg | hg
    · exact le_trans (h.statuses_le g hg) hmono
    · exact GamepadSource.accept_active (by simpa using hg)
  case active_le => exact fun g hg => le_trans (h.active_le g hg) hmono
  case retired =>
    intro hidle
    rcases h.retired hidle with hr | hr | ⟨hge, hcap⟩
    · exact Or.inl hr
    · rcases List.mem_cons.1 hr with hend | hr
      · -- the `End` of the last generation arrives: nothing newer can be captured
        rw [← hend]
        exact Or.inr (Or.inr (GamepadSource.accept_endCapture (fun c hc => h.capture_le hc)
          now openOk writeOk))
      · exact Or.inr (Or.inl hr)
    · exact Or.inr (Or.inr ⟨le_trans hge hmono,
        GamepadSource.accept_of_retired hcap (le_trans hreq hge)⟩)

theorem Inv.deliverRequest (h : s.Inv) (now : Instant) (openOk writeOk : Bool) :
    (s.step (.deliverRequest now openOk writeOk)).Inv := by
  simp only [Link.step]
  split
  · exact h
  rename_i request requests hs
  have hexp : (s.settle (s.source.expire now)).Inv := h.expire now
  have hreq : s.settle (s.source.expire now) =
      { s.settle (s.source.expire now) with requests := request :: requests } := by
    rw [← hs]; rfl
  rw [hreq] at hexp
  exact hexp.accept now openOk writeOk

/-- **Every event preserves the invariant.** -/
theorem Inv.step (h : s.Inv) (e : LinkEvent) : (s.step e).Inv := by
  cases e with
  | begin => exact h.begin
  | sample g state now => exact h.sample g state now
  | stop => exact h.stop
  | pop => exact h.pop
  | advertise => exact h.advertise
  | expire now => exact h.expire now
  | deliverRequest now openOk writeOk => exact h.deliverRequest now openOk writeOk
  | deliverStatus => exact h.deliverStatus

/-! ### Agreement -/

/-- What the two sides agree on. -/
structure Agreement (s : Link) : Prop where
  /-- At every moment of the past at most one device was open. -/
  one_device : ∀ pre post, s.source.devices = pre ++ post → (held pre).length ≤ 1
  /-- The open device is that of the current capture. -/
  held_eq : held s.source.devices = (s.source.capture.map Capture.generation).toList
  /-- A state was applied to the device open at that time, was sent for the same generation, and
  that generation was begun by the controller. -/
  applied : ∀ pre d r state post, s.source.devices = pre ++ .applied d r state :: post →
    held pre = [d] ∧ r = d ∧ d ∈ s.begun
  /-- A device is opened when none is open, for a generation the controller has begun. -/
  opened : ∀ pre g post, s.source.devices = pre ++ .opened g :: post → held pre = [] ∧ g ∈ s.begun
  /-- The controller never begins a generation twice. -/
  begun_lt : s.begun.Pairwise (· < ·)
  /-- No generation is captured twice. -/
  openings_lt : (openings s.source.devices).Pairwise (· < ·)
  /-- A device is retired right after it received the neutral state. -/
  dropped : ∀ pre g post, s.source.devices = pre ++ .dropped g :: post →
    ∃ pre', pre = pre' ++ [.neutralized g]
  /-- Nothing is captured once an idle controller has nothing in flight. -/
  idle : s.requests = [] → s.statuses = [] → s.controller.endRequest = none →
    s.controller.mode.current = none → s.source.capture = none
  /-- An active controller with nothing in flight is served by a capture of its generation. -/
  active : ∀ g, s.controller.mode = .active g → s.requests = [] → s.statuses = [] →
    ∀ c, s.source.capture = some c → c.generation = g

/-- Every device that was ever opened or held was opened for some generation. -/
theorem mem_openings_of_held {d : ℕ} (h : d ∈ held log) : d ∈ openings log := by
  induction log using List.reverseRecOn with
  | nil => simp at h
  | append_singleton log e ih =>
      rw [held_concat] at h
      rw [openings_append, List.mem_append]
      cases e with
      | opened g =>
          rcases List.mem_cons.1 h with rfl | h
          · exact Or.inr (by simp [openings])
          · exact Or.inl (ih h)
      | applied | neutralized => exact Or.inl (ih h)
      | dropped g => exact Or.inl (ih (List.mem_of_mem_erase h))

theorem Inv.agreement (h : s.Inv) : s.Agreement where
  one_device := by
    intro pre post hlog
    have ho := h.source.orderly
    rw [hlog] at ho
    exact Orderly.held_length_le (History.Each.of_append ho)
  held_eq := h.source.held_eq
  applied := by
    intro pre d r state post hlog
    obtain ⟨hheld, hr⟩ : held pre = [d] ∧ r = d := h.source.orderly pre _ post hlog
    refine ⟨hheld, hr, h.openings_begun d ?_⟩
    rw [hlog, openings_append, List.mem_append]
    exact Or.inl (mem_openings_of_held (by simp [hheld]))
  opened := by
    intro pre g post hlog
    refine ⟨h.source.orderly pre _ post hlog, h.openings_begun g ?_⟩
    rw [hlog]
    simp [openings]
  begun_lt := h.controller.begun_lt
  openings_lt := h.source.openings_lt
  dropped := fun pre g post hlog => (h.source.orderly pre _ post hlog).2
  idle := by
    intro hreq hstat hend hidle
    rcases h.retired hidle with hr | hr | hr
    · simp [hend] at hr
    · simp [hreq] at hr
    · exact hr.2
  active := by
    intro g hg _ _ c hc
    have hcur : g = s.controller.generation := h.controller.current_eq g (by simp [hg, current])
    have hfloor : c.generation = s.source.floor := h.source.floor_eq c hc
    have hle := h.floor_le
    have hge := h.active_le g hg
    omega

/-- **The endpoints agree in every reachable state**, in whatever order calls, deliveries, watchdog
expiries and device failures come. -/
theorem agreement_of_reachable (provider : Bool) (s : Link)
    (h : Transition.Reachable step (init provider) s) : s.Agreement :=
  (h.induct (inv_init provider) fun _ e hi => hi.step e).agreement

/-- A run with two captures, the first retired by the watchdog. -/
theorem agreement_of_two_captures :
    (Transition.exec step (init true)
      [.advertise, .deliverStatus, .begin, .pop, .deliverRequest 0 true true,
        .expire watchdog, .deliverStatus, .deliverStatus, .begin, .pop, .pop,
        .deliverRequest watchdog true true, .deliverRequest watchdog true true]).Agreement :=
  agreement_of_reachable true _ ⟨_, rfl⟩

end Link

end Gamepad
