/-
**Previews are as fresh as the cache says.**

A picture that the cache calls fresh is the picture of the last ticket that was taken for its window,
and the window has not changed since that ticket was taken.  Whatever makes a picture stale (a change,
a capture that failed or ran out of time) is therefore remembered until a later ticket brings another
picture.

A ticket is void once another one is out.  Asking for a ticket while one is out yields nothing, and
leaves the one that is out as it was.

Main definitions: `CacheEvent.Keeps`, `CacheEvent.Leaves`, `Settles`, `Sound`.

Main results:

* `previews_are_fresh` — the cache is bounded, its tickets are void in time, its revisions
  name pictures, and fresh pictures are fresh.
-/

import Weld.Thumbnail
import Weld.History
import Weld.Transition

namespace Thumbnail

open History CacheEvent AList

/-! ### What events mean -/

/-- The ticket stays out. -/
def CacheEvent.Keeps (capture : ThumbnailCapture) : CacheEvent → Prop
  | .taken _ _ | .accepted _ _ _ => False
  | .invalidated _ => True
  | .retained visible => visible capture.target = true

/-- A fresh picture of the target stays fresh. -/
def CacheEvent.Leaves (x : ThumbnailTarget) : CacheEvent → Prop
  | .taken capture _ => capture.target ≠ x
  | .accepted capture image _ => capture.target = x → image ≠ none
  | .invalidated y => y ≠ x
  | .retained visible => visible x = true

/-- A ticket is numbered higher than those before it; a completion is accepted for the ticket that is
out, before it runs out. -/
def CacheEvent.Allowed (earlier : List CacheEvent) : CacheEvent → Prop
  | .taken capture _ => ∀ other now, .taken other now ∈ earlier → other.revision < capture.revision
  | .accepted capture _ now => ∃ started, Since (Keeps capture) (.taken capture started) earlier ∧
      now < started + captureTimeout
  | .invalidated _ | .retained _ => True

def CacheEvent.ticket : CacheEvent → Option ThumbnailCapture
  | .taken capture _ => some capture
  | _ => none

def CacheEvent.completed : CacheEvent → Option ThumbnailCapture
  | .accepted capture _ _ => some capture
  | _ => none

/-- The tickets handed out, in order. -/
def tickets (log : List CacheEvent) : List ThumbnailCapture := log.filterMap (·.ticket)

/-- The tickets whose completion was accepted, in order. -/
def completions (log : List CacheEvent) : List ThumbnailCapture := log.filterMap (·.completed)

/-- The picture is that of the last ticket for the target, and the target has not changed since that
ticket was taken. -/
def Settles (x : ThumbnailTarget) (snapshot : Snapshot) (log : List CacheEvent) : Prop :=
  ∃ started earlier later, log = earlier ++ .taken ⟨x, snapshot.revision⟩ started :: later ∧
    .accepted ⟨x, snapshot.revision⟩ (some snapshot.image) snapshot.captured ∈ later ∧
    ∀ e ∈ later, e.Leaves x

theorem Settles.concat {x : ThumbnailTarget} {snapshot : Snapshot} {log : List CacheEvent}
    {e : CacheEvent} (h : Settles x snapshot log) (he : e.Leaves x) :
    Settles x snapshot (log ++ [e]) := by
  obtain ⟨started, earlier, later, rfl, haccepted, hlater⟩ := h
  refine ⟨started, earlier, later ++ [e], by simp, List.mem_append_left _ haccepted, fun d hd => ?_⟩
  rcases List.mem_append.mp hd with hd | hd
  · exact hlater d hd
  · rw [List.mem_singleton.mp hd]
    exact he

/-! ### The invariant -/

/-- What the cache holds follows from what happened. -/
structure Sound (c : Cache) (log : List CacheEvent) : Prop where
  small : c.entries.size ≤ cacheEntries
  orderly : Each (fun earlier e => e.Allowed earlier) log
  below : ∀ capture now, .taken capture now ∈ log → capture.revision ≤ c.next
  increasing : ((tickets log).map (·.revision)).Pairwise (· < ·)
  each : (completions log).Sublist (tickets log)
  out : ∀ capture started, c.active = some (capture, started) → capture.target ∈ c.entries ∧
    Since (Keeps capture) (.taken capture started) log ∧
    (completions log ++ [capture]).Sublist (tickets log)
  pictured : ∀ x entry snapshot, c.entries.lookup x = some entry → entry.snapshot = some snapshot →
    .accepted ⟨x, snapshot.revision⟩ (some snapshot.image) snapshot.captured ∈ log
  watched : ∀ capture started entry, c.active = some (capture, started) →
    c.entries.lookup capture.target = some entry → entry.dirty = false →
      Since (fun e => e.Keeps capture ∧ e.Leaves capture.target) (.taken capture started) log
  settled : ∀ x entry, c.entries.lookup x = some entry → entry.dirty = false →
    c.capturing x = false → ∃ snapshot, entry.snapshot = some snapshot ∧ Settles x snapshot log

section Operations

variable {c : Cache} {log : List CacheEvent}

theorem sound_empty : Sound {} [] where
  small := Nat.zero_le _
  orderly := each_nil
  below _ _ h := absurd h List.not_mem_nil
  increasing := List.Pairwise.nil
  each := List.Sublist.slnil
  out _ _ h := by cases h
  pictured _ _ _ h := by cases h
  watched _ _ _ h := by cases h
  settled _ _ h := by cases h

variable {x : ThumbnailTarget}

theorem capturing_eq_true : c.capturing x = true ↔
    ∃ capture started, c.active = some (capture, started) ∧ capture.target = x := by
  unfold Cache.capturing
  cases c.active with
  | none => simp
  | some ticket => simp [Prod.ext_iff]

theorem capturing_eq_false : c.capturing x = false ↔
    ∀ capture started, c.active = some (capture, started) → capture.target ≠ x := by
  rw [← Bool.not_eq_true, capturing_eq_true]
  push Not
  exact Iff.rfl

variable (h : Sound c log)
include h

/-- Entries go, but not that of the ticket. -/
theorem Sound.shrink {entries : Dict ThumbnailTarget Entry} (hsize : entries.size ≤ cacheEntries)
    (hlookup : ∀ x entry, entries.lookup x = some entry → c.entries.lookup x = some entry)
    (hout : ∀ capture started, c.active = some (capture, started) → capture.target ∈ entries) :
    Sound { c with entries := entries } log where
  small := hsize
  orderly := h.orderly
  below := h.below
  increasing := h.increasing
  each := h.each
  out capture started hactive := ⟨hout capture started hactive, (h.out capture started hactive).2⟩
  pictured x entry snapshot hx := h.pictured x entry snapshot (hlookup x entry hx)
  watched capture started entry hactive hx :=
    h.watched capture started entry hactive (hlookup _ entry hx)
  settled x entry hx := h.settled x entry (hlookup x entry hx)

/-! ### Requests -/

omit h in
theorem oldest_spec {y : ThumbnailTarget} (h : c.oldest = some y) :
    y ∈ c.entries ∧ c.capturing y = false := by
  have hmem := List.argmin_mem h
  rw [List.mem_filter, ← mem_keys] at hmem
  exact ⟨hmem.1, by simpa using hmem.2⟩

omit h in
/-- A full cache has an entry without a ticket. -/
theorem oldest_ne_none (hfull : c.entries.size = cacheEntries) : c.oldest ≠ none := by
  intro hnone
  have hnil := List.argmin_eq_none.mp hnone
  have hall : ∀ x ∈ c.entries.keys, ∀ y ∈ c.entries.keys, x = y := by
    have hcapturing : ∀ x ∈ c.entries.keys, c.capturing x = true := by
      intro x hx
      by_contra hfree
      have hmem : x ∈ c.entries.keys.filter fun x => !c.capturing x :=
        List.mem_filter.mpr ⟨hx, by simpa using hfree⟩
      rw [hnil] at hmem
      exact absurd hmem List.not_mem_nil
    intro x hx y hy
    obtain ⟨capture, started, hactive, rfl⟩ := capturing_eq_true.mp (hcapturing x hx)
    obtain ⟨capture', started', hactive', rfl⟩ := capturing_eq_true.mp (hcapturing y hy)
    rw [hactive] at hactive'
    cases hactive'
    rfl
  have hlength : c.entries.keys.length ≤ 1 := by
    rcases hkeys : c.entries.keys with _ | ⟨x, _ | ⟨y, rest⟩⟩
    · simp
    · simp
    · have hnodup := keys_nodup c.entries
      rw [hkeys] at hnodup hall
      have hxy := hall x (by simp) y (by simp)
      simp [hxy] at hnodup
  have hsize : c.entries.keys.length = cacheEntries := hfull
  rw [hsize] at hlength
  exact absurd hlength (by decide)

theorem Sound.evictFor (x : ThumbnailTarget) :
    Sound (c.evictFor x) log ∧ (c.evictFor x).active = c.active ∧
      (x ∉ (c.evictFor x).entries → (c.evictFor x).entries.size < cacheEntries) ∧
      ∀ entry, (c.evictFor x).entries.lookup x = some entry → c.entries.lookup x = some entry := by
  unfold Cache.evictFor
  split_ifs with hfull
  · cases holdest : c.oldest with
    | none => exact absurd holdest (oldest_ne_none hfull.2)
    | some y =>
        obtain ⟨hmem, hfree⟩ := oldest_spec holdest
        have hlt := size_erase_lt (mem_keys.mpr hmem)
        have hkept : ∀ z entry, (c.entries.erase y).lookup z = some entry →
            c.entries.lookup z = some entry := by
          intro z entry hz
          rw [lookup_erase_eq] at hz
          split_ifs at hz
          exact hz
        refine ⟨h.shrink (hlt.le.trans h.small) hkept ?_, rfl, fun _ => ?_, hkept x⟩
        · intro capture started hactive
          refine mem_erase.mpr ⟨?_, (h.out capture started hactive).1⟩
          exact capturing_eq_false.mp hfree capture started hactive
        · exact lt_of_lt_of_le hlt h.small
  · refine ⟨h, rfl, fun hx => ?_, fun _ hx => hx⟩
    exact lt_of_le_of_ne h.small fun hsize => hfull ⟨hx, hsize⟩

/-- A request changes nothing that the history tells. -/
theorem Sound.request (q : ThumbnailRequest) (now : Instant) : Sound (c.request q now).1 log := by
  obtain ⟨he, hactive, hroom, -⟩ := h.evictFor q.target
  set d := c.evictFor q.target with hd
  have hlookup : ∀ x, (c.request q now).1.entries.lookup x =
      if x = q.target then some (d.use q.target now (d.entryOf q.target now))
      else d.entries.lookup x := fun x => lookup_insert_eq ..
  have hsame : ∀ x entry, (c.request q now).1.entries.lookup x = some entry →
      (entry.dirty = true ∧ entry.snapshot = none) ∨
        ∃ old, d.entries.lookup x = some old ∧ entry.dirty = old.dirty ∧
          entry.snapshot = old.snapshot := by
    intro x entry hx
    rw [hlookup] at hx
    split_ifs at hx with hxq
    · cases hx
      unfold Cache.entryOf
      cases hold : d.entries.lookup q.target with
      | none => exact Or.inl ⟨rfl, rfl⟩
      | some old => exact Or.inr ⟨old, by rw [hxq]; exact hold, rfl, rfl⟩
    · exact Or.inr ⟨entry, hx, rfl, rfl⟩
  refine ⟨?_, he.orderly, he.below, he.increasing, he.each, ?_, ?_, ?_, ?_⟩
  · change (d.entries.insert q.target _).keys.length ≤ cacheEntries
    rw [keys_insert, List.length_cons]
    by_cases hmem : q.target ∈ d.entries
    · have hkey := mem_keys.mp hmem
      have hpos := List.length_pos_of_mem hkey
      have hsmall : d.entries.keys.length ≤ cacheEntries := he.small
      rw [List.length_erase_of_mem hkey]
      omega
    · have hlt : d.entries.keys.length < cacheEntries := hroom hmem
      rw [List.erase_of_not_mem hmem]
      omega
  · intro capture started hc
    obtain ⟨hmem, hrest⟩ := he.out capture started hc
    exact ⟨(mem_insert _).mpr (Or.inr hmem), hrest⟩
  · intro x entry snapshot hx hsnapshot
    rcases hsame x entry hx with ⟨-, hnone⟩ | ⟨old, hold, -, heq⟩
    · rw [hnone] at hsnapshot
      cases hsnapshot
    · exact he.pictured x old snapshot hold (heq.symm.trans hsnapshot)
  · intro capture started entry hc hx hclean
    rcases hsame _ entry hx with ⟨hdirty, -⟩ | ⟨old, hold, heq, -⟩
    · rw [hdirty] at hclean
      cases hclean
    · exact he.watched capture started old hc hold (heq.symm.trans hclean)
  · intro x entry hx hclean hfree
    rcases hsame x entry hx with ⟨hdirty, -⟩ | ⟨old, hold, heq, hsnapshot⟩
    · rw [hdirty] at hclean
      cases hclean
    · obtain ⟨snapshot, hsome, hsettles⟩ := he.settled x old hold (heq.symm.trans hclean) hfree
      exact ⟨snapshot, hsnapshot.trans hsome, hsettles⟩

omit h

/-! ### Tickets -/

theorem tickets_append (log : List CacheEvent) (e : CacheEvent) :
    tickets (log ++ [e]) = tickets log ++ e.ticket.toList := by
  rw [tickets, List.filterMap_append]
  cases hticket : e.ticket <;> simp [tickets, hticket]

theorem completions_append (log : List CacheEvent) (e : CacheEvent) :
    completions (log ++ [e]) = completions log ++ e.completed.toList := by
  rw [completions, List.filterMap_append]
  cases hcompleted : e.completed <;> simp [completions, hcompleted]

variable {capture : ThumbnailCapture}

theorem taken_of_mem_tickets (h : capture ∈ tickets log) : ∃ now, .taken capture now ∈ log := by
  obtain ⟨e, he, hticket⟩ := List.mem_filterMap.mp h
  cases e with
  | taken other now =>
      cases hticket
      exact ⟨now, he⟩
  | accepted | invalidated | retained => cases hticket

include h

/-- A ticket that runs out leaves its target stale. -/
theorem Sound.expire {started : Instant} (hactive : c.active = some (capture, started)) :
    Sound (c.expire capture) log := by
  have hlookup : ∀ x entry, (c.expire capture).entries.lookup x = some entry →
      ∃ old, c.entries.lookup x = some old ∧ entry.snapshot = old.snapshot ∧
        (entry.dirty = false → x ≠ capture.target ∧ old.dirty = false) := by
    intro x entry hx
    simp only [Cache.expire, lookup_modify] at hx
    split_ifs at hx with hxt
    · obtain ⟨old, hold, rfl⟩ := Option.map_eq_some_iff.mp hx
      exact ⟨old, hold, rfl, nofun⟩
    · exact ⟨entry, hx, rfl, fun hclean => ⟨hxt, hclean⟩⟩
  refine ⟨?_, h.orderly, h.below, h.increasing, h.each, nofun, ?_, nofun, ?_⟩
  · change (c.entries.modify _ _).keys.length ≤ cacheEntries
    rw [keys_modify]
    exact h.small
  · intro x entry snapshot hx hsnapshot
    obtain ⟨old, hold, heq, -⟩ := hlookup x entry hx
    exact h.pictured x old snapshot hold (heq.symm.trans hsnapshot)
  · intro x entry hx hclean _
    obtain ⟨old, hold, heq, hkept⟩ := hlookup x entry hx
    obtain ⟨hxt, hclean'⟩ := hkept hclean
    have hfree : c.capturing x = false := by
      refine capturing_eq_false.mpr fun other started' hother => ?_
      rw [hactive] at hother
      cases hother
      exact hxt.symm
    obtain ⟨snapshot, hsome, hsettles⟩ := h.settled x old hold hclean' hfree
    exact ⟨snapshot, heq.trans hsome, hsettles⟩

/-- A ticket is handed out while none is. -/
theorem Sound.issue (hidle : c.active = none) (now : Instant) :
    Sound (c.issue now).1 (log ++ ((c.issue now).2.map (taken · now)).toList) := by
  unfold Cache.issue
  cases hdue : c.due now with
  | none => simpa using h
  | some x =>
      split_ifs with hnext
      swap
      · simpa using h
      have hmem : x ∈ c.entries := by
        have hx := List.argmin_mem hdue
        rw [List.mem_filter] at hx
        exact mem_keys.mpr hx.1
      have hlookup : ∀ y entry, (c.entries.modify x fun entry =>
          { entry with requested := false, dirty := false, lastAttempt := some now }).lookup y =
            some entry → ∃ old, c.entries.lookup y = some old ∧ entry.snapshot = old.snapshot ∧
              (y ≠ x → entry = old) := by
        intro y entry hy
        rw [lookup_modify] at hy
        split_ifs at hy with hyx
        · obtain ⟨old, hold, rfl⟩ := Option.map_eq_some_iff.mp hy
          exact ⟨old, hold, rfl, fun hne => absurd hyx hne⟩
        · exact ⟨entry, hy, rfl, fun _ => rfl⟩
      have hbelow : ∀ other ∈ tickets log, other.revision < c.next + 1 := by
        intro other hother
        obtain ⟨now', htaken⟩ := taken_of_mem_tickets hother
        exact Nat.lt_succ_of_le (h.below other now' htaken)
      simp only [Option.map_some, Option.toList_some]
      refine ⟨?_, h.orderly.concat ?_, ?_, ?_, ?_, ?_, ?_, ?_, ?_⟩
      · change (c.entries.modify _ _).keys.length ≤ cacheEntries
        rw [keys_modify]
        exact h.small
      · intro other now' htaken
        exact Nat.lt_succ_of_le (h.below other now' htaken)
      · intro other now' htaken
        rcases List.mem_append.mp htaken with htaken | htaken
        · exact Nat.le_succ_of_le (h.below other now' htaken)
        · cases List.mem_singleton.mp htaken
          exact le_rfl
      · rw [tickets_append, List.map_append, List.pairwise_append]
        refine ⟨h.increasing, List.pairwise_singleton _ _, ?_⟩
        intro q hq q' hq'
        obtain ⟨other, hother, rfl⟩ := List.mem_map.mp hq
        rw [List.mem_singleton.mp hq']
        exact hbelow other hother
      · rw [tickets_append, completions_append]
        exact h.each.append (List.nil_sublist _)
      · intro capture started hactive
        cases hactive
        refine ⟨?_, Since.here log _, ?_⟩
        · rw [mem_keys, keys_modify, ← mem_keys]
          exact hmem
        · rw [tickets_append, completions_append]
          have heach := h.each.append_right [(⟨x, c.next + 1⟩ : ThumbnailCapture)]
          simpa [completed, ticket] using heach
      · intro y entry snapshot hy hsnapshot
        obtain ⟨old, hold, heq, -⟩ := hlookup y entry hy
        exact List.mem_append_left _ (h.pictured y old snapshot hold (heq.symm.trans hsnapshot))
      · intro capture started entry hactive _ _
        cases hactive
        exact Since.here log _
      · intro y entry hy hclean hfree
        have hyx : x ≠ y := capturing_eq_false.mp hfree ⟨x, c.next + 1⟩ now rfl
        obtain ⟨old, hold, -, hsame⟩ := hlookup y entry hy
        obtain rfl := hsame hyx.symm
        have hfree' : c.capturing y = false :=
          capturing_eq_false.mpr fun capture started hactive => by rw [hidle] at hactive; cases hactive
        obtain ⟨snapshot, hsome, hsettles⟩ := h.settled y entry hold hclean hfree'
        exact ⟨snapshot, hsome, hsettles.concat hyx⟩

theorem Sound.take (now : Instant) :
    Sound (c.take now).1 (log ++ ((c.take now).2.map (taken · now)).toList) := by
  unfold Cache.take
  cases hactive : c.active with
  | none => exact h.issue hactive now
  | some ticket =>
      obtain ⟨capture, started⟩ := ticket
      simp only []
      split_ifs
      · simpa using h
      · exact (h.expire hactive).issue rfl now

/-- A completion that is accepted is that of the ticket that is out. -/
theorem Sound.complete (capture : ThumbnailCapture) (image : Option ThumbnailImage) (now : Instant) :
    Sound (c.complete capture image now).1
      (log ++ if (c.complete capture image now).2 then [.accepted capture image now] else []) := by
  unfold Cache.complete
  by_cases hcurrent : c.isCurrent capture now = true
  swap
  · rw [if_neg hcurrent]
    simpa using h
  obtain ⟨started, hactive, hintime⟩ : ∃ started, c.active = some (capture, started) ∧
      now - started < captureTimeout := by
    unfold Cache.isCurrent at hcurrent
    cases hticket : c.active with
    | none =>
        rw [hticket] at hcurrent
        cases hcurrent
    | some ticket =>
        rw [hticket, Option.any_some, Bool.and_eq_true, decide_eq_true_eq, decide_eq_true_eq]
          at hcurrent
        obtain ⟨rfl, hlt⟩ := hcurrent
        exact ⟨ticket.2, rfl, hlt⟩
  obtain ⟨hmem, hout, heach⟩ := h.out capture started hactive
  rw [if_pos hcurrent]
  simp only [decide_eq_true hmem, if_true]
  have hlookup : ∀ x entry, (c.entries.modify capture.target
      (Cache.Entry.complete capture image now)).lookup x = some entry →
        ∃ old, c.entries.lookup x = some old ∧
          (x = capture.target → entry = Cache.Entry.complete capture image now old) ∧
          (x ≠ capture.target → entry = old) := by
    intro x entry hx
    rw [lookup_modify] at hx
    split_ifs at hx with hxt
    · obtain ⟨old, hold, rfl⟩ := Option.map_eq_some_iff.mp hx
      exact ⟨old, hold, fun _ => rfl, fun hne => absurd hxt hne⟩
    · exact ⟨entry, hx, fun heq => absurd heq hxt, fun _ => rfl⟩
  refine ⟨?_, h.orderly.concat ⟨started, hout, ?_⟩, ?_, ?_, ?_, nofun, ?_, nofun, ?_⟩
  · change (c.entries.modify _ _).keys.length ≤ cacheEntries
    rw [keys_modify]
    exact h.small
  · have hlt : ∀ a b n : ℕ, a - b < n → a < b + n := by omega
    exact hlt now started captureTimeout hintime
  · intro other now' htaken
    rcases List.mem_append.mp htaken with htaken | htaken
    · exact h.below other now' htaken
    · cases List.mem_singleton.mp htaken
  · rw [tickets_append]
    simpa [ticket] using h.increasing
  · rw [tickets_append, completions_append]
    simpa [completed, ticket] using heach
  · intro x entry snapshot hx hsnapshot
    obtain ⟨old, hold, hself, hother⟩ := hlookup x entry hx
    by_cases hxt : x = capture.target
    · obtain rfl := hself hxt
      cases image with
      | some image =>
          cases hsnapshot
          rw [hxt]
          exact List.mem_append_right _ (List.mem_singleton.mpr rfl)
      | none => exact List.mem_append_left _ (h.pictured x old snapshot hold hsnapshot)
    · obtain rfl := hother hxt
      exact List.mem_append_left _ (h.pictured x entry snapshot hold hsnapshot)
  · intro x entry hx hclean _
    obtain ⟨old, hold, hself, hother⟩ := hlookup x entry hx
    by_cases hxt : x = capture.target
    · obtain rfl := hself hxt
      cases image with
      | none => cases hclean
      | some image =>
          -- nothing has happened to the target since its ticket was taken
          have hwatched := h.watched capture started old hactive (hxt ▸ hold) hclean
          obtain ⟨earlier, later, hlog, hlater⟩ := hwatched
          refine ⟨_, rfl, started, earlier, later ++ [.accepted capture (some image) now], ?_, ?_, ?_⟩
          · rw [hlog, hxt]
            simp
          · rw [hxt]
            exact List.mem_append_right _ (List.mem_singleton.mpr rfl)
          · intro e he
            rcases List.mem_append.mp he with he | he
            · rw [hxt]
              exact (hlater e he).2
            · rw [List.mem_singleton.mp he]
              exact fun _ => nofun
    · obtain rfl := hother hxt
      have hfree : c.capturing x = false := by
        refine capturing_eq_false.mpr fun other started' heq => ?_
        rw [hactive] at heq
        cases heq
        exact fun heq => hxt heq.symm
      obtain ⟨snapshot, hsome, hsettles⟩ := h.settled x entry hold hclean hfree
      exact ⟨snapshot, hsome, hsettles.concat fun heq => absurd heq.symm hxt⟩

/-! ### Changes -/

theorem Sound.invalidate (x : ThumbnailTarget) : Sound (c.invalidate x) (log ++ [.invalidated x]) := by
  have hlookup : ∀ y entry, (c.invalidate x).entries.lookup y = some entry →
      ∃ old, c.entries.lookup y = some old ∧ entry.snapshot = old.snapshot ∧
        (entry.dirty = false → x ≠ y ∧ old.dirty = false) := by
    intro y entry hy
    simp only [Cache.invalidate, lookup_modify] at hy
    split_ifs at hy with hyx
    · obtain ⟨old, hold, rfl⟩ := Option.map_eq_some_iff.mp hy
      exact ⟨old, hold, rfl, nofun⟩
    · exact ⟨entry, hy, rfl, fun hclean => ⟨fun heq => hyx heq.symm, hclean⟩⟩
  refine ⟨?_, h.orderly.concat trivial, ?_, ?_, ?_, ?_, ?_, ?_, ?_⟩
  · change (c.entries.modify _ _).keys.length ≤ cacheEntries
    rw [keys_modify]
    exact h.small
  · intro other now htaken
    rcases List.mem_append.mp htaken with htaken | htaken
    · exact h.below other now htaken
    · cases List.mem_singleton.mp htaken
  · rw [tickets_append]
    simpa [ticket] using h.increasing
  · rw [tickets_append, completions_append]
    simpa [completed, ticket] using h.each
  · intro capture started hactive
    obtain ⟨hmem, hout, heach⟩ := h.out capture started hactive
    refine ⟨?_, hout.concat trivial, ?_⟩
    · rw [mem_keys, Cache.invalidate, keys_modify, ← mem_keys]
      exact hmem
    · rw [tickets_append, completions_append]
      simpa [completed, ticket] using heach
  · intro y entry snapshot hy hsnapshot
    obtain ⟨old, hold, heq, -⟩ := hlookup y entry hy
    exact List.mem_append_left _ (h.pictured y old snapshot hold (heq.symm.trans hsnapshot))
  · intro capture started entry hactive hy hclean
    obtain ⟨old, hold, -, hkept⟩ := hlookup _ entry hy
    obtain ⟨hne, hclean'⟩ := hkept hclean
    exact (h.watched capture started old hactive hold hclean').concat ⟨trivial, hne⟩
  · intro y entry hy hclean hfree
    obtain ⟨old, hold, heq, hkept⟩ := hlookup y entry hy
    obtain ⟨hne, hclean'⟩ := hkept hclean
    obtain ⟨snapshot, hsome, hsettles⟩ := h.settled y old hold hclean' hfree
    exact ⟨snapshot, heq.trans hsome, hsettles.concat hne⟩

theorem Sound.retain (visible : ThumbnailTarget → Bool) :
    Sound (c.retain visible) (log ++ [.retained visible]) := by
  have hlookup : ∀ y entry, (c.retain visible).entries.lookup y = some entry →
      c.entries.lookup y = some entry ∧ visible y = true := by
    intro y entry hy
    simp only [Cache.retain, lookup_retain] at hy
    exact Option.filter_eq_some_iff.mp hy
  have hactive : ∀ capture started, (c.retain visible).active = some (capture, started) ↔
      c.active = some (capture, started) ∧ visible capture.target = true := by
    intro capture started
    exact Option.filter_eq_some_iff
  refine ⟨?_, h.orderly.concat trivial, ?_, ?_, ?_, ?_, ?_, ?_, ?_⟩
  · have hle : ((c.retain visible).entries.keys).length ≤ c.entries.keys.length := by
      simp only [Cache.retain, retain, keys, List.keys, List.length_map]
      exact List.length_filter_le _ _
    exact hle.trans h.small
  · intro other now htaken
    rcases List.mem_append.mp htaken with htaken | htaken
    · exact h.below other now htaken
    · cases List.mem_singleton.mp htaken
  · rw [tickets_append]
    simpa [ticket] using h.increasing
  · rw [tickets_append, completions_append]
    simpa [completed, ticket] using h.each
  · intro capture started hkept
    obtain ⟨hold, hvisible⟩ := (hactive capture started).mp hkept
    obtain ⟨hmem, hout, heach⟩ := h.out capture started hold
    refine ⟨?_, hout.concat hvisible, ?_⟩
    · obtain ⟨entry, hentry⟩ := exists_lookup hmem
      have hkept : (c.retain visible).entries.lookup capture.target = some entry := by
        simp only [Cache.retain, lookup_retain]
        exact Option.filter_eq_some_iff.mpr ⟨hentry, hvisible⟩
      exact mem_of_lookup hkept
    · rw [tickets_append, completions_append]
      simpa [completed, ticket] using heach
  · intro y entry snapshot hy hsnapshot
    exact List.mem_append_left _ (h.pictured y entry snapshot (hlookup y entry hy).1 hsnapshot)
  · intro capture started entry hkept hy hclean
    obtain ⟨hold, hvisible⟩ := (hactive capture started).mp hkept
    have hwatched := h.watched capture started entry hold (hlookup _ entry hy).1 hclean
    exact hwatched.concat ⟨hvisible, hvisible⟩
  · intro y entry hy hclean hfree
    obtain ⟨hold, hvisible⟩ := hlookup y entry hy
    have hfree' : c.capturing y = false := by
      refine capturing_eq_false.mpr fun capture started hticket heq => ?_
      refine capturing_eq_false.mp hfree capture started ((hactive capture started).mpr ?_) heq
      exact ⟨hticket, by rw [heq]; exact hvisible⟩
    obtain ⟨snapshot, hsome, hsettles⟩ := h.settled y entry hold hclean hfree'
    exact ⟨snapshot, hsome, hsettles.concat hvisible⟩

/-! ### Answers -/

/-- The revision an answer names, and how fresh the cache says it is. -/
def ThumbnailStatus.answer : ThumbnailStatus → Option (ThumbnailRevision × ThumbnailFreshness)
  | .image revision freshness _ | .unchanged revision freshness => some (revision, freshness)
  | .pending => none

/-- An answer names the stored picture: it carries it, or confirms the client's revision. -/
def Names (q : ThumbnailRequest) (response : ThumbnailResponse) (snapshot : Snapshot)
    (freshness : ThumbnailFreshness) : Prop :=
  (response.status = .image snapshot.revision freshness snapshot.image.header ∧
      response.image = some snapshot.image) ∨
    (response.status = .unchanged snapshot.revision freshness ∧
      q.ifRevision = some snapshot.revision)

/-- An answer is about the stored picture, and calls it fresh only if it is. -/
theorem Sound.answers (q : ThumbnailRequest) (now : Instant) {revision : ThumbnailRevision}
    {freshness : ThumbnailFreshness}
    (hanswer : (c.request q now).2.status.answer = some (revision, freshness)) :
    ∃ snapshot, snapshot.revision = revision ∧
      (c.entries.lookup q.target).bind (·.snapshot) = some snapshot ∧
      Names q (c.request q now).2 snapshot freshness ∧
      .accepted ⟨q.target, revision⟩ (some snapshot.image) snapshot.captured ∈ log ∧
      (freshness.stale = false → Settles q.target snapshot log) := by
  obtain ⟨-, hactive, -, hkept⟩ := h.evictFor q.target
  set d := c.evictFor q.target with hd
  have hresponse : (c.request q now).2 =
      Cache.respond q now (d.use q.target now (d.entryOf q.target now)) (c.capturing q.target) := by
    have hcapturing : d.capturing = c.capturing := by
      unfold Cache.capturing
      rw [hactive]
    rw [← hcapturing]
    rfl
  rw [hresponse] at hanswer ⊢
  unfold Cache.respond at hanswer ⊢
  have hsame : (d.use q.target now (d.entryOf q.target now)).snapshot =
      (d.entryOf q.target now).snapshot := rfl
  have hdirty : (d.use q.target now (d.entryOf q.target now)).dirty =
      (d.entryOf q.target now).dirty := rfl
  rw [hsame, hdirty] at hanswer ⊢
  cases hold : d.entries.lookup q.target with
  | none =>
      rw [Cache.entryOf, hold] at hanswer
      cases hanswer
  | some entry =>
      have hentry : d.entryOf q.target now = entry := by
        rw [Cache.entryOf, hold]
        rfl
      rw [hentry] at hanswer ⊢
      have hstored := hkept entry hold
      cases hsnapshot : entry.snapshot with
      | none =>
          rw [hsnapshot] at hanswer
          cases hanswer
      | some snapshot =>
          have hfresh : (entry.dirty || c.capturing q.target) = false →
              Settles q.target snapshot log := by
            intro hclean
            rw [Bool.or_eq_false_iff] at hclean
            obtain ⟨other, hother, hsettles⟩ := h.settled q.target entry hstored hclean.1 hclean.2
            obtain rfl : snapshot = other := Option.some.inj (hsnapshot.symm.trans hother)
            exact hsettles
          have hpictured := h.pictured q.target entry snapshot hstored hsnapshot
          have hfound : (c.entries.lookup q.target).bind (·.snapshot) = some snapshot := by
            rw [hstored]
            exact hsnapshot
          simp only [hsnapshot] at hanswer ⊢
          split_ifs at hanswer ⊢ with hrevision
          · cases hanswer
            exact ⟨snapshot, rfl, hfound, Or.inr ⟨rfl, hrevision⟩, hpictured, hfresh⟩
          · cases hanswer
            exact ⟨snapshot, rfl, hfound, Or.inl ⟨rfl, rfl⟩, hpictured, hfresh⟩

omit h

/-- What makes a picture stale is followed by the ticket of a picture that is fresh. -/
theorem Settles.after {snapshot : Snapshot} (h : Settles x snapshot log)
    {earlier later : List CacheEvent} {e : CacheEvent} (hlog : log = earlier ++ e :: later)
    (he : ¬ e.Leaves x) : (∃ started, e = .taken ⟨x, snapshot.revision⟩ started) ∨
      ∃ started before after, later = before ++ .taken ⟨x, snapshot.revision⟩ started :: after ∧
        .accepted ⟨x, snapshot.revision⟩ (some snapshot.image) snapshot.captured ∈ after := by
  obtain ⟨started, front, back, hfront, haccepted, hback⟩ := h
  rcases mem_suffix_of_not (hfront.symm.trans hlog) hback he with ⟨-, rfl, -⟩ | ⟨before, hlater⟩
  · exact Or.inl ⟨started, rfl⟩
  · exact Or.inr ⟨started, before, back, hlater, haccepted⟩

end Operations

/-! ### Whole runs -/

theorem sound_step {r : RecordedCache} (h : Sound r.cache r.log) (call : CacheCall) :
    Sound (r.step call).cache (r.step call).log := by
  cases call with
  | request q now => exact h.request q now
  | take now => exact h.take now
  | complete capture image now => exact h.complete capture image now
  | invalidate x => exact h.invalidate x
  | retain visible => exact h.retain visible

/-- **Previews are as fresh as the cache says.**  The cache is bounded; tickets are numbered upwards,
each is accepted at most once, while it is out and before it runs out; an answer names the stored
picture, and one that calls it fresh names that of the last ticket for the target, taken after
everything that made an earlier picture stale. -/
theorem previews_are_fresh (calls : List CacheCall) :
    let r := Transition.exec RecordedCache.step {} calls
    r.cache.entries.size ≤ cacheEntries ∧
      ((tickets r.log).map (·.revision)).Pairwise (· < ·) ∧
      (completions r.log).Sublist (tickets r.log) ∧
      Each (fun earlier e => e.Allowed earlier) r.log ∧
      ∀ q now revision freshness,
        (r.cache.request q now).2.status.answer = some (revision, freshness) →
          ∃ snapshot, snapshot.revision = revision ∧
            (r.cache.entries.lookup q.target).bind (·.snapshot) = some snapshot ∧
            Names q (r.cache.request q now).2 snapshot freshness ∧
            .accepted ⟨q.target, revision⟩ (some snapshot.image) snapshot.captured ∈ r.log ∧
            (freshness.stale = false → Settles q.target snapshot r.log ∧
              ∀ earlier e later, r.log = earlier ++ e :: later → ¬ e.Leaves q.target →
                (∃ started, e = .taken ⟨q.target, revision⟩ started) ∨
                  ∃ started before after,
                    later = before ++ .taken ⟨q.target, revision⟩ started :: after ∧
                    .accepted ⟨q.target, revision⟩ (some snapshot.image) snapshot.captured ∈
                      after) := by
  intro r
  have hr : Sound r.cache r.log := Transition.exec_invariant
    (P := fun r : RecordedCache => Sound r.cache r.log) (fun _ call h => sound_step h call)
    sound_empty calls
  refine ⟨hr.small, hr.increasing, hr.each, hr.orderly, fun q now revision freshness hanswer => ?_⟩
  obtain ⟨snapshot, rfl, hstored, hnames, haccepted, hfresh⟩ := hr.answers q now hanswer
  refine ⟨snapshot, rfl, hstored, hnames, haccepted, fun hclean => ⟨hfresh hclean, ?_⟩⟩
  intro earlier e later hlog he
  exact (hfresh hclean).after hlog he

/-- **Asking in vain voids nothing**: while a ticket is out, `take` hands out none, and the ticket is
accepted afterwards. -/
theorem accepted_after_later_take :
    let x : ThumbnailTarget := ⟨0, ⟨⟨0, 0⟩, 0⟩⟩
    let asked := Transition.exec RecordedCache.step {} [.request ⟨x, none⟩ 0]
    let waiting := Transition.exec RecordedCache.step {} [.request ⟨x, none⟩ 0, .take 0, .take 1]
    (asked.cache.take 0).2 = some ⟨x, 1⟩ ∧ (waiting.cache.complete ⟨x, 1⟩ none 2).2 = true := by
  decide

end Thumbnail
