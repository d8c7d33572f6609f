/-
**What the drains of a peer return.**

A record that was admitted is in its queue, in the hands of a call, or it was returned, and the
permits of a queue are in its records, with its readers, or free.  This is so as long as no call fails
with records in its hands.  One does if it has taken records from one queue and finds the next one
failed and empty: the records it has taken are gone with it.

A call may also fail before it comes to a queue that still holds records.  What the compositor does
with a peer whose drain has failed is to give it up, so these are not returned either.

Main definitions: `Delivered`, `Undisturbed`.

Main results:

* `Sound.step` — every undisturbed step keeps the account;
* `delivered_iff_undisturbed` — a run delivers everything if and only if all its steps are
  undisturbed.
-/

import Weld.Transition
import Weld.PeerInbox

namespace PeerInbox

variable {C M : Type} {payload : M → ℕ}

/-! ### The account -/

structure Delivered (payload : M → ℕ) (s : Peer C M) : Prop where
  /-- Every record was returned, is being returned, or is queued: each once, and in order. -/
  conserved : ∀ lane, s.admitted lane =
    s.returned.flatMap (fun batch => batch lane) ++ s.hand lane ++ (s.queues lane).records
  /-- A drain that has failed had nothing to return. -/
  refusals : ∀ batch ∈ s.refused, ∀ lane, batch lane = []
  permits : ∀ lane, (s.queues lane).free + (s.queues lane).records.length +
    (s.queues lane).reserved = capacity lane
  /-- If something can be taken, somebody has said so or is about to. -/
  awake : ∀ budget, s.offered = some budget → s.readable payload budget = true →
    s.woken = true ∨ 0 < s.owed

/-- A drain comes to a queue that has failed and is empty only when the others are empty as well,
and when it has taken nothing from them. -/
def Undisturbed (s : Peer C M) (label : Label C M) : Prop :=
  match label with
  | .drainLane =>
      ∀ call, s.call = some call → (s.queues call.lane).refuses = true →
        ∀ lane, call.hand lane = [] ∧ (s.queues lane).records = []
  | _ => True

/-- The queues from this one on are still to be drained. -/
def Lane.pending : Lane → List Lane
  | .control => [.control, .audio, .media]
  | .audio => [.audio, .media]
  | .media => [.media]

theorem pending_of_next {lane next other : Lane} (h : lane.next = some next)
    (hother : other ∈ next.pending) : other ∈ lane.pending ∧ other ≠ lane := by
  cases lane with
  | control | audio =>
      cases h
      refine ⟨List.mem_cons_of_mem _ hother, ?_⟩
      rintro rfl
      simp [Lane.pending] at hother
  | media => cases h

structure Sound (payload : M → ℕ) (s : Peer C M) : Prop extends Delivered payload s where
  untouched : ∀ call, s.call = some call → ∀ lane ∈ call.lane.pending, call.hand lane = []
  quiet : s.call.isSome = true → s.offered = none

/-! ### Queues -/

section

variable {α σ : Type} (q : IncomingQueue α)

/-- A queue that gives a permit or takes one back holds the same records. -/
structure SamePermits (q q' : IncomingQueue α) : Prop where
  records : q'.records = q.records
  permits : q'.free + q'.reserved = q.free + q.reserved

theorem reserve_same : SamePermits q q.reserve.1 := by
  unfold IncomingQueue.reserve
  split_ifs with hclosed hfree
  · exact ⟨rfl, rfl⟩
  · exact ⟨rfl, rfl⟩
  · refine ⟨rfl, ?_⟩
    dsimp only
    omega

theorem cancel_same : SamePermits q q.cancel := by
  unfold IncomingQueue.cancel
  split_ifs with hreserved
  · exact ⟨rfl, rfl⟩
  · refine ⟨rfl, ?_⟩
    dsimp only
    omega

/-- A record that is admitted takes the permit of its reader. -/
theorem send_cases (record : α) :
    ((q.send record).2 = false ∧ SamePermits q (q.send record).1) ∨
    ((q.send record).2 = true ∧ (q.send record).1.records = q.records ++ [record] ∧
      (q.send record).1.free + (q.send record).1.reserved + 1 = q.free + q.reserved) := by
  unfold IncomingQueue.send
  split_ifs with hreserved havailable
  · exact Or.inl ⟨rfl, rfl, rfl⟩
  · refine Or.inr ⟨rfl, rfl, ?_⟩
    dsimp only
    omega
  · exact Or.inl ⟨rfl, cancel_same q⟩

/-- What a drain takes comes from the front, and its permits are free. -/
theorem drainMatching_spec {limit : ℕ} {fits : σ → α → Option σ} {room : σ} {taken : List α}
    {q' : IncomingQueue α} (h : q.drainMatching limit fits room = some (taken, q')) :
    q.records = taken ++ q'.records ∧
      q'.free + q'.records.length + q'.reserved = q.free + q.records.length + q.reserved := by
  unfold IncomingQueue.drainMatching at h
  split_ifs at h
  cases h
  have hall := takeFitting_append fits limit room q.records
  have hlength := congrArg List.length hall
  rw [List.length_append] at hlength
  refine ⟨hall.symm, ?_⟩
  dsimp only
  omega

theorem drainMatching_none (limit : ℕ) (fits : σ → α → Option σ) (room : σ) :
    q.drainMatching limit fits room = none ↔ q.refuses = true := by
  unfold IncomingQueue.drainMatching
  split_ifs with hrefuses
  · simp [hrefuses]
  · simp [hrefuses]

end

/-! ### Steps that leave the records alone -/

theorem queues_setQueue (s : Peer C M) (lane : Lane) (q : IncomingQueue (Record C M lane)) :
    (s.setQueue lane q).queues = Function.update s.queues lane q := rfl

/-- Whether anything can be taken depends on the records alone. -/
theorem readable_congr {s s' : Peer C M}
    (h : ∀ lane, (s'.queues lane).records = (s.queues lane).records) (budget : ReceiveBudget) :
    s'.readable payload budget = s.readable payload budget := by
  unfold Peer.readable IncomingQueue.wakeIf
  rw [h, h, h]

variable {s : Peer C M}

variable (h : Sound payload s)
include h

theorem Sound.setQueue (lane : Lane) {q : IncomingQueue (Record C M lane)}
    (hsame : SamePermits (s.queues lane) q) : Sound payload (s.setQueue lane q) := by
  have hrecords : ∀ other,
      ((s.setQueue lane q).queues other).records = (s.queues other).records := by
    intro other
    rw [queues_setQueue]
    by_cases hother : other = lane
    · subst hother
      rw [Function.update_self, hsame.records]
    · rw [Function.update_of_ne hother]
  refine ⟨⟨fun other => ?_, h.refusals, fun other => ?_, fun budget hoffered hreadable => ?_⟩,
    h.untouched, h.quiet⟩
  · rw [hrecords]
    exact h.conserved other
  · rw [queues_setQueue]
    by_cases hother : other = lane
    · subst hother
      have hpermits := h.permits other
      have hlength := congrArg List.length hsame.records
      have hsum := hsame.permits
      rw [Function.update_self]
      omega
    · rw [Function.update_of_ne hother]
      exact h.permits other
  · rw [readable_congr hrecords] at hreadable
    exact h.awake budget hoffered hreadable

/-! ### Readers -/

theorem Sound.send (lane : Lane) (record : Record C M lane) : Sound payload (s.send lane record) := by
  unfold Peer.send
  rcases send_cases (s.queues lane) record with ⟨hrefused, hsame⟩ | ⟨hsent, hrecords, hpermits⟩
  · simp only [hrefused, Bool.false_eq_true, if_false]
    exact h.setQueue lane hsame
  · rw [if_pos hsent]
    refine ⟨⟨fun other => ?_, h.refusals, fun other => ?_, fun _ _ _ => Or.inr (Nat.succ_pos _)⟩,
      h.untouched, h.quiet⟩
    · have hold := h.conserved other
      by_cases hother : other = lane
      · subst hother
        simp only [queues_setQueue, Function.update_self]
        rw [hrecords, hold]
        simp only [List.append_assoc]
        rfl
      · simp only [queues_setQueue, Function.update_of_ne hother]
        exact hold
    · have hold := h.permits other
      by_cases hother : other = lane
      · subst hother
        have hlength := congrArg List.length hrecords
        rw [List.length_append, List.length_singleton] at hlength
        simp only [queues_setQueue, Function.update_self]
        omega
      · simp only [queues_setQueue, Function.update_of_ne hother]
        exact hold

theorem Sound.notify : Sound payload s.notify := by
  unfold Peer.notify
  split_ifs
  · exact h
  · exact ⟨⟨h.conserved, h.refusals, h.permits, fun _ _ _ => Or.inl rfl⟩, h.untouched, h.quiet⟩

/-! ### The compositor -/

theorem Sound.beginDrain (budget : ReceiveBudget) : Sound payload (s.beginDrain budget) := by
  unfold Peer.beginDrain
  split_ifs with hcall
  · exact h
  · have hnone : s.call = none := by
      cases hcase : s.call with
      | none => rfl
      | some call => exact absurd (by rw [hcase]; rfl) hcall
    refine ⟨⟨fun lane => ?_, h.refusals, h.permits, fun _ hoffered => ?_⟩,
      fun call heq => ?_, fun _ => rfl⟩
    · have hold := h.conserved lane
      unfold Peer.hand at hold ⊢
      rw [hnone] at hold
      exact hold
    · cases hoffered
    · cases heq
      exact fun _ _ => rfl

theorem Sound.wakeIfReadable (budget : ReceiveBudget) :
    Sound payload (s.wakeIfReadable payload budget) := by
  unfold Peer.wakeIfReadable
  split_ifs with hcall
  · exact h
  · refine ⟨⟨h.conserved, h.refusals, h.permits, fun other hoffered hreadable => ?_⟩, h.untouched,
      fun hsome => absurd hsome hcall⟩
    cases hoffered
    left
    have hsame : s.readable payload budget = true := hreadable
    rw [hsame, Bool.or_true]

/-- What is taken from a queue goes to the end of what the call has. -/
theorem Sound.drainLane (hundisturbed : Undisturbed s .drainLane) :
    Sound payload (s.drainLane payload) := by
  unfold Peer.drainLane
  split
  · exact h
  · rename_i call hcall
    have hoffered : s.offered = none := h.quiet (by rw [hcall]; rfl)
    have hhand : s.hand = call.hand := by
      unfold Peer.hand
      rw [hcall]
    split
    · rename_i hnone
      rw [drainMatching_none] at hnone
      have hempty := hundisturbed call hcall hnone
      refine ⟨⟨fun lane => ?_, fun batch hbatch => ?_, h.permits, fun _ hsome => ?_⟩,
        fun _ heq => ?_, fun hsome => ?_⟩
      · have hold := h.conserved lane
        rw [hhand, (hempty lane).1] at hold
        exact hold
      · rcases List.mem_append.mp hbatch with hold | hnew
        · exact h.refusals batch hold
        · rw [List.mem_singleton] at hnew
          subst hnew
          intro lane
          dsimp only
          rw [(hempty lane).1, (hempty lane).2]
          rfl
      · rw [hoffered] at hsome
        cases hsome
      · cases heq
      · cases hsome
    · rename_i taken q htaken
      obtain ⟨hrecords, hpermits⟩ := drainMatching_spec _ htaken
      -- the permits of what was taken are free, whoever is next
      have hafter : ∀ lane,
          ((s.setQueue call.lane q).queues lane).free +
            ((s.setQueue call.lane q).queues lane).records.length +
            ((s.setQueue call.lane q).queues lane).reserved = capacity lane := by
        intro lane
        have hold := h.permits lane
        rw [queues_setQueue]
        by_cases hlane : lane = call.lane
        · subst hlane
          rw [Function.update_self]
          omega
        · rw [Function.update_of_ne hlane]
          exact hold
      have hmoved : ∀ lane, call.hand lane ++ (s.queues lane).records =
          Function.update call.hand call.lane taken lane ++
            ((s.setQueue call.lane q).queues lane).records := by
        intro lane
        rw [queues_setQueue]
        by_cases hlane : lane = call.lane
        · subst hlane
          have hnothing := h.untouched call hcall call.lane (by
            cases call.lane <;> exact List.mem_cons_self)
          rw [Function.update_self, Function.update_self, hnothing, List.nil_append, hrecords]
        · rw [Function.update_of_ne hlane, Function.update_of_ne hlane]
      have hconserved : ∀ lane, s.admitted lane =
          s.returned.flatMap (fun batch => batch lane) ++
            (Function.update call.hand call.lane taken lane ++
              ((s.setQueue call.lane q).queues lane).records) := by
        intro lane
        have hold := h.conserved lane
        rw [hhand, List.append_assoc, hmoved] at hold
        exact hold
      split
      · rename_i lane hnext
        refine ⟨⟨fun other => ?_, h.refusals, hafter, fun _ hsome => ?_⟩, fun call' heq => ?_,
          fun _ => hoffered⟩
        · rw [List.append_assoc]
          exact hconserved other
        · rw [show s.offered = some _ from hsome] at hoffered
          cases hoffered
        · cases heq
          intro other hother
          have hlater := pending_of_next hnext hother
          dsimp only
          rw [Function.update_of_ne hlater.2]
          exact h.untouched call hcall other hlater.1
      · refine ⟨⟨fun other => ?_, h.refusals, hafter, fun _ hsome => ?_⟩, fun call' heq => ?_,
          fun hsome => ?_⟩
        · have hhere := hconserved other
          refine hhere.trans ?_
          simp [Peer.hand, Peer.setQueue]
        · rw [show s.offered = some _ from hsome] at hoffered
          cases hoffered
        · cases heq
        · cases hsome

/-! ### Runs -/

omit h in
theorem Sound.initial : Sound payload ({} : Peer C M) := by
  refine ⟨⟨fun _ => rfl, fun _ hbatch => ?_, fun _ => rfl, fun _ hoffered => ?_⟩,
    fun _ hcall => ?_, fun _ => rfl⟩
  · cases hbatch
  · cases hoffered
  · cases hcall

/-- **Every undisturbed step keeps the account.** -/
theorem Sound.step (label : Label C M) (hundisturbed : Undisturbed s label) :
    Sound payload (step payload s label) := by
  cases label with
  | reserve lane => exact h.setQueue lane (reserve_same _)
  | cancel lane => exact h.setQueue lane (cancel_same _)
  | send lane record => exact h.send lane record
  | notify => exact h.notify
  | fail lane => exact h.setQueue lane ⟨rfl, rfl⟩
  | close lane =>
      have hclosed := h.setQueue lane (q := (s.queues lane).close) ⟨rfl, rfl⟩
      exact ⟨⟨hclosed.conserved, hclosed.refusals, hclosed.permits, fun _ _ _ => Or.inl rfl⟩,
        hclosed.untouched, hclosed.quiet⟩
  | beginDrain budget => exact h.beginDrain budget
  | drainLane => exact h.drainLane hundisturbed
  | wakeIfReadable budget => exact h.wakeIfReadable budget

omit h

/-- A drain that is disturbed loses what it has taken, or leaves something behind. -/
theorem undisturbed_of_delivered {label : Label C M}
    (h : Delivered payload (step payload s label)) : Undisturbed s label := by
  cases label with
  | drainLane =>
      intro call hcall hrefuses lane
      have hnone := (drainMatching_none (s.queues call.lane) (call.budget.limit call.lane)
        (fits payload call.lane) call.budget.mediaBytes).mpr hrefuses
      have hrefused : (step payload s .drainLane).refused =
          s.refused ++ [fun lane => call.hand lane ++ (s.queues lane).records] := by
        simp only [step, Peer.drainLane, hcall, hnone]
      have hleft := h.refusals (fun lane => call.hand lane ++ (s.queues lane).records)
        (by rw [hrefused]; exact List.mem_append_right _ (List.mem_singleton_self _)) lane
      exact List.append_eq_nil_iff.mp hleft
  | _ => trivial

/-- **What drains return.**  In every state of a run all that was admitted is accounted for, nothing
was refused while there was something to return, permits are kept and whoever can take something is
woken: if and only if every step of the run is undisturbed. -/
theorem delivered_iff_undisturbed (payload : M → ℕ) (run : List (Label C M)) :
    (∀ before after, run = before ++ after →
      Delivered payload (Transition.exec (step payload) {} before)) ↔
    Transition.Meets (step payload) Undisturbed {} run := by
  constructor
  · have hgeneral : ∀ (s : Peer C M), (∀ before after, run = before ++ after →
        Delivered payload (Transition.exec (step payload) s before)) →
        Transition.Meets (step payload) Undisturbed s run := by
      induction run with
      | nil => exact fun _ _ => trivial
      | cons label run ih =>
          intro s h
          refine ⟨undisturbed_of_delivered (h [label] run rfl), ih _ fun before after heq => ?_⟩
          exact h (label :: before) after (by rw [heq]; rfl)
    exact hgeneral {}
  · rintro h before after rfl
    exact (h.take.invariant (P := Sound payload) (fun _ label hs hu => hs.step label hu)
      Sound.initial).toDelivered

/-- A record of control is lost: the connection fails, the next drain takes the record, and then
finds that there is no audio. -/
theorem failed_drain_loses_control :
    ¬ ∀ run : List (Label ℕ ℕ), Delivered id (Transition.exec (step id) {} run) := by
  intro h
  have hlost := (h [.reserve .control, .send .control 7, .notify, .fail .media, .close .media,
    .fail .audio, .close .audio, .fail .control, .close .control,
    .beginDrain ⟨256, 2, 1000⟩, .drainLane, .drainLane]).conserved .control
  exact absurd hlost (by decide)

end PeerInbox
