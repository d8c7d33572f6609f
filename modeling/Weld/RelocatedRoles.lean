/-
**The published roles follow the sessions.**

A destination relay publishes the role of a mapped surface under its own names, without the parent
while the parent is not mapped, and publishes it again when the parent is.  So the last role it
published is a function of the sessions and roles it has now, and nothing is published for a surface
between its destruction and its next mapping.

The exception is in the source: children are refreshed when their parent is mapped and not when it
is taken away, so a window that outlives its parent still names it.  The results are about runs in
which no surface is taken away while a toplevel that stays names it as parent.

Main definitions: `RouteEvent.lastRole`, `RouteEvent.routed`, `DestinationRelayAdapter.Tracks`,
`DestinationRelayAdapter.Routes`, `DestinationRelayAdapter.Spares`.

Main results:

* `DestinationRelayAdapter.roles_track_sessions` — every run whose steps meet the condition;
* `DestinationRelayAdapter.withdrawn_parent_lingers` — a run that does not.
-/

import Weld.DestinationRelay
import Weld.Cascade
import Weld.History

namespace Hoist

open Client Gamepad AList Transition

/-! ### What a trace says of a surface -/

variable {event : ClientSurfaceEvent}

namespace RouteEvent

variable (surface : ClientSurfaceId)

/-- The role of the surface after one more event. -/
def noteRole (role : Option ClientSurfaceRole) : RouteEvent → Option ClientSurfaceRole
  | .published ⟨x, .role r⟩ => if x = surface then some r else role
  | _ => role

/-- The last role published for a surface. -/
def lastRole (trace : List RouteEvent) : Option ClientSurfaceRole :=
  trace.foldl (noteRole surface) none

/-- Whether the surface is mapped after one more event. -/
def noteRoute (routed : Bool) : RouteEvent → Bool
  | .mapped x => routed || x == surface
  | .published ⟨x, .destroyed⟩ => routed && x != surface
  | _ => routed

/-- The surface was mapped and not destroyed since. -/
def routed (trace : List RouteEvent) : Bool :=
  trace.foldl (noteRoute surface) false

/-- Nothing is published for a surface that is not mapped. -/
def WellRouted (trace : List RouteEvent) : Prop :=
  History.Each (fun earlier e => ∀ event, e = .published event →
    routed event.surface earlier = true) trace

theorem lastRole_append (trace : List RouteEvent) (e : RouteEvent) :
    lastRole surface (trace ++ [e]) = noteRole surface (lastRole surface trace) e := by
  rw [lastRole, List.foldl_append]
  rfl

theorem routed_append (trace : List RouteEvent) (e : RouteEvent) :
    routed surface (trace ++ [e]) = noteRoute surface (routed surface trace) e := by
  rw [routed, List.foldl_append]
  rfl

theorem mapped_mem_of_routed {surface : ClientSurfaceId} {trace : List RouteEvent} {routed : Bool}
    (h : trace.foldl (noteRoute surface) routed = true) :
    routed = true ∨ .mapped surface ∈ trace := by
  induction trace generalizing routed with
  | nil => exact Or.inl h
  | cons e trace ih =>
      rcases ih h with hnote | hmem
      · cases e with
        | mapped x =>
            rw [noteRoute, Bool.or_eq_true, beq_iff_eq] at hnote
            rcases hnote with hrouted | rfl
            · exact Or.inl hrouted
            · exact Or.inr List.mem_cons_self
        | published event =>
            obtain ⟨x, kind⟩ := event
            cases kind with
            | destroyed =>
                rw [noteRoute, Bool.and_eq_true] at hnote
                exact Or.inl hnote.1
            | _ => exact Or.inl hnote
        | cursor => exact Or.inl hnote
      · exact Or.inr (List.mem_cons_of_mem e hmem)

/-- **Between the destruction of a surface and anything published for it later, it is mapped.** -/
theorem WellRouted.mapped_between {trace earlier between later : List RouteEvent} (h : WellRouted trace)
      (htrace : trace = earlier ++ .published ⟨event.surface, .destroyed⟩ :: (between ++ .published event ::
      later)) : .mapped event.surface ∈ between := by
  have hrouted := h (earlier ++ .published ⟨event.surface, .destroyed⟩ :: between) (.published event) later
    (by rw [htrace, List.append_assoc, List.cons_append]) event rfl
  rw [routed, List.foldl_append, List.foldl_cons] at hrouted
  rcases mapped_mem_of_routed hrouted with hnote | hmem
  · simp [noteRoute] at hnote
  · exact hmem

end RouteEvent

open RouteEvent

namespace DestinationRelayAdapter

variable {env : DestinationEnvironment} {s t u : DestinationRelayAdapter}

/-! ### Taking surfaces away -/

/-- Only mapped surfaces have a role. -/
def Rooted (s : DestinationRelayAdapter) : Prop :=
  ∀ x role, s.roles.lookup x = some role → x ∈ s.sessions

/-- The surfaces in `gone` are taken away, and nothing else happens to sessions and roles. -/
structure Removed (gone : ClientSurfaceId → Prop) (s t : DestinationRelayAdapter) : Prop where
  upstreamSource : t.upstreamSource = s.upstreamSource
  descriptor : t.descriptor = s.descriptor
  lost : ∀ x, gone x → t.sessions.lookup x = none ∧ t.roles.lookup x = none
  kept : ∀ x, ¬ gone x →
    t.sessions.lookup x = s.sessions.lookup x ∧ t.roles.lookup x = s.roles.lookup x
  published : ∀ d, lastRole d t.trace = lastRole d s.trace

variable {x : ClientSurfaceId}

namespace Removed

theorem refl (s : DestinationRelayAdapter) : Removed (fun _ => False) s s :=
  ⟨rfl, rfl, fun _ h => h.elim, fun _ _ => ⟨rfl, rfl⟩, fun _ => rfl⟩

variable {gone' gone : ClientSurfaceId → Prop}

theorem trans (h : Removed gone s t) (h' : Removed gone' t u) : Removed (fun x => gone x ∨ gone' x) s u where
  upstreamSource := h'.upstreamSource.trans h.upstreamSource
  descriptor := h'.descriptor.trans h.descriptor
  lost x hx := by
    by_cases hlate : gone' x
    · exact h'.lost x hlate
    · obtain ⟨hsession, hrole⟩ := h'.kept x hlate
      obtain ⟨hsession', hrole'⟩ := h.lost x (hx.resolve_right hlate)
      exact ⟨hsession.trans hsession', hrole.trans hrole'⟩
  kept x hx := by
    obtain ⟨hsession, hrole⟩ := h'.kept x fun hg => hx (Or.inr hg)
    obtain ⟨hsession', hrole'⟩ := h.kept x fun hg => hx (Or.inl hg)
    exact ⟨hsession.trans hsession', hrole.trans hrole'⟩
  published d := (h'.published d).trans (h.published d)

theorem congr (h : Removed gone s t) (hiff : ∀ x, gone x ↔ gone' x) : Removed gone' s t := by
  have heq : gone = gone' := funext fun x => propext (hiff x)
  rw [← heq]
  exact h

variable {gone : ClientSurfaceId → Prop}

theorem mem (h : Removed gone s t) : x ∈ t.sessions ↔ x ∈ s.sessions ∧ ¬ gone x := by
  rw [← lookup_isSome, ← lookup_isSome]
  by_cases hx : gone x
  · rw [(h.lost x hx).1]
    simp [hx]
  · rw [(h.kept x hx).1]
    simp [hx]

theorem rooted (h : Removed gone s t) (hs : s.Rooted) : t.Rooted := by
  intro x role hrole
  rw [h.mem]
  by_cases hx : gone x
  · rw [(h.lost x hx).2] at hrole
    cases hrole
  · rw [(h.kept x hx).2] at hrole
    exact ⟨hs x role hrole, hx⟩

end Removed

theorem lastRole_destroyed (trace : List RouteEvent) (d surface : ClientSurfaceId) :
    lastRole d (trace ++ [.published ⟨surface, .destroyed⟩]) = lastRole d trace :=
  lastRole_append d trace _

variable (env) in
theorem removed_destroyQuietly (hs : s.Rooted) (x : ClientSurfaceId) :
    Removed (· = x) s (s.destroyQuietly env x) := by
  unfold destroyQuietly
  split_ifs with hmem
  · refine ⟨rfl, rfl, ?_, ?_, fun d => lastRole_destroyed _ d _⟩
    · rintro y rfl
      simp [publish, retire, dropCursor]
    · intro y hy
      simp [publish, retire, dropCursor, hy]
  · refine ⟨rfl, rfl, ?_, fun _ _ => ⟨rfl, rfl⟩, fun _ => rfl⟩
    rintro y rfl
    refine ⟨lookup_eq_none.mpr hmem, ?_⟩
    cases hrole : s.roles.lookup y with
    | none => exact hrole
    | some role => exact absurd (hs y role hrole) hmem

theorem removed_foldl {f : DestinationRelayAdapter → ClientSurfaceId → DestinationRelayAdapter}
    (hf : ∀ s x, s.Rooted → Removed (· = x) s (f s x)) (l : List ClientSurfaceId)
    (hs : s.Rooted) : Removed (· ∈ l) s (l.foldl f s) := by
  induction l generalizing s with
  | nil => exact (Removed.refl s).congr fun x => by simp
  | cons x l ih =>
      have hfirst := hf s x hs
      refine (hfirst.trans (ih (hfirst.rooted hs))).congr fun y => ?_
      rw [List.mem_cons]

variable (env) in
/-- A relay that has not failed loses everything when it fails. -/
theorem removed_fail (hs : s.Rooted) (halive : s.failed = false) :
    Removed (· ∈ s.sessions) s (s.fail env) := by
  have hdead : ¬ s.failed = true := by rw [halive]; decide
  rw [fail, if_neg hdead]
  have hfold := removed_foldl (f := destroyQuietly env) (s := s.disconnectGamepad.tick)
    (fun s x hs => removed_destroyQuietly env hs x) (env.surfaces.arrange s.calls s.sessions.keys) hs
  have hall : Removed (· ∈ s.sessions) _ _ := hfold.congr fun x => by
    rw [IterationOrder.mem_arrange, mem_keys]
  exact ⟨hall.upstreamSource, hall.descriptor, hall.lost, hall.kept, hall.published⟩

/-- Nothing is mapped, and nothing has a role. -/
def Vacant (s : DestinationRelayAdapter) : Prop :=
  s.Rooted ∧ ∀ x, x ∉ s.sessions

theorem Removed.vacant (hs : s.Rooted) (h : Removed (· ∈ s.sessions) s t) : t.Vacant := by
  refine ⟨h.rooted hs, fun x hx => ?_⟩
  obtain ⟨hmem, hnot⟩ := h.mem.mp hx
  exact hnot hmem

theorem Vacant.destroySurface (h : s.Vacant) (x : ClientSurfaceId) :
    (s.destroySurface env x).Vacant := by
  rw [DestinationRelayAdapter.destroySurface, if_neg (h.2 x)]
  exact h

variable (env) in
/-- Notifying the port may fail the relay. -/
theorem removed_destroySurface (hs : s.Rooted) (x : ClientSurfaceId) :
    Removed (· = x) s (s.destroySurface env x) ∨ (s.destroySurface env x).Vacant := by
  have hquiet := removed_destroyQuietly env hs x
  unfold destroyQuietly at hquiet
  unfold destroySurface
  split_ifs at hquiet ⊢ with hmem
  · have hretired : ((s.dropCursor x).retire env x).Rooted := hquiet.rooted hs
    unfold submit
    split
    · exact Or.inl ⟨rfl, rfl, hquiet.lost, hquiet.kept, fun d => lastRole_destroyed _ d _⟩
    · cases hfailed : s.failed with
      | true =>
          have hfailed' : ((s.dropCursor x).retire env x).tick.failed = true := hfailed
          rw [fail, if_pos hfailed']
          exact Or.inl ⟨rfl, rfl, hquiet.lost, hquiet.kept, fun d => lastRole_destroyed _ d _⟩
      | false =>
          have hfailed' : ((s.dropCursor x).retire env x).tick.failed = false := hfailed
          have hvacant := Removed.vacant (s := ((s.dropCursor x).retire env x).tick) hretired
            (removed_fail env hretired hfailed')
          exact Or.inr ⟨hvacant.1, hvacant.2⟩
  · exact Or.inl hquiet

variable (env) in
theorem removed_endSession (hs : s.Rooted) (session : HoistSessionId) :
    Removed (fun x => s.sessions.lookup x = some session) s (s.endSession env session) ∨
      (s.endSession env session).Vacant := by
  have hfold : ∀ (l : List ClientSurfaceId) (t : DestinationRelayAdapter), t.Rooted →
      Removed (· ∈ l) t (l.foldl (destroySurface env) t) ∨
        (l.foldl (destroySurface env) t).Vacant := by
    intro l
    induction l with
    | nil => exact fun t _ => Or.inl ((Removed.refl t).congr fun x => by simp)
    | cons x l ih =>
        intro t ht
        rw [List.foldl_cons]
        rcases removed_destroySurface env ht x with hfirst | hvacant
        · refine (ih _ (hfirst.rooted ht)).imp_left fun hrest => ?_
          refine (hfirst.trans hrest).congr fun y => ?_
          rw [List.mem_cons]
        · right
          exact Cascade.foldl_invariant (P := Vacant) (fun u y _ hu => hu.destroySurface y) hvacant
  refine (hfold (s.sessionSurfaces env session) s.tick hs).imp_left fun h => ?_
  have hall : Removed (fun x => s.sessions.lookup x = some session) _ _ := h.congr fun x => by
    rw [sessionSurfaces, List.mem_filter, decide_eq_true_eq, IterationOrder.mem_arrange]
    exact ⟨And.right, fun hx => ⟨mem_keys_of_lookup hx, hx⟩⟩
  exact ⟨hall.upstreamSource, hall.descriptor, hall.lost, hall.kept, hall.published⟩

/-! ### Roles -/

/-- The last role published for a surface is its role under the names of the destination, as far
as it has one. -/
def Published (s : DestinationRelayAdapter) (x : ClientSurfaceId) (role : ClientSurfaceRole) :
    Prop :=
  ∀ relocated, s.relocatedRole role = some relocated →
    lastRole (s.relocated x) s.trace = some relocated

/-- The mapped surfaces are the source's, and only they have roles. -/
structure Ordered (s : DestinationRelayAdapter) : Prop where
  own : ∀ x ∈ s.sessions, x.source = s.upstreamSource
  rooted : s.Rooted

/-- What was published of the mapped surfaces follows from their roles and the sessions. -/
structure Tracks (s : DestinationRelayAdapter) : Prop extends Ordered s where
  published : ∀ x role, s.roles.lookup x = some role → s.Published x role

theorem Vacant.tracks (h : s.Vacant) : s.Tracks where
  own x hx := absurd hx (h.2 x)
  rooted := h.1
  published x role hrole := absurd (h.1 x role hrole) (h.2 x)

/-- No toplevel that stays names one of the mapped surfaces in `gone` as its parent. -/
def Spared (gone : ClientSurfaceId → Prop) (s : DestinationRelayAdapter) : Prop :=
  ∀ x state parent, ¬ gone x → s.roles.lookup x = some (.toplevel state) →
    state.parent = some parent → gone parent → parent ∉ s.sessions

variable {gone : ClientSurfaceId → Prop} {session : HoistSessionId}

theorem Removed.relocated (h : Removed gone s t)
    (x : ClientSurfaceId) : t.relocated x = s.relocated x := by
  rw [DestinationRelayAdapter.relocated, h.descriptor]
  rfl

variable {role : ClientSurfaceRole}

/-- A role keeps its relocated form while what it names stays. -/
theorem Removed.relocatedRole_eq (h : Removed gone s t) {r : ClientSurfaceRole}
    (hrole : t.relocatedRole role = some r) (hparent : ∀ state parent, role = .toplevel state → state.parent
      = some parent → gone parent → parent ∉ s.sessions) : s.relocatedRole role = some r := by
  rw [← hrole]
  cases role with
  | layer => rfl
  | toplevel state =>
      have hsame : ∀ parent, state.parent = some parent →
          (parent ∈ t.sessions ↔ parent ∈ s.sessions) := by
        intro parent hp
        rw [h.mem]
        exact ⟨And.left, fun hmem => ⟨hmem, fun hg => hparent state parent rfl hp hg hmem⟩⟩
      cases hp : state.parent with
      | none => simp [relocatedRole, hp]
      | some parent => simp [relocatedRole, hp, hsame parent hp, h.relocated]
  | popup state =>
      simp only [relocatedRole] at hrole ⊢
      split_ifs at hrole with howner
      rw [if_pos howner, if_pos (h.mem.mp howner).1, h.relocated]

theorem Tracks.removed (hs : s.Tracks) (h : Removed gone s t)
    (hspared : Spared gone s) : t.Tracks where
  own x hx := by
    rw [h.upstreamSource]
    exact hs.own x (h.mem.mp hx).1
  rooted := h.rooted hs.rooted
  published x role hrole r hr := by
    by_cases hx : gone x
    · rw [(h.lost x hx).2] at hrole
      cases hrole
    · rw [(h.kept x hx).2] at hrole
      rw [h.relocated, h.published]
      refine hs.published x role hrole r (h.relocatedRole_eq hr ?_)
      intro state parent heq hp hg
      rw [heq] at hrole
      exact hspared x state parent hx hrole hp hg

theorem Tracks.fail (hs : s.Tracks) : (s.fail env).Tracks := by
  cases hfailed : s.failed with
  | true =>
      rw [DestinationRelayAdapter.fail, if_pos hfailed]
      exact hs
  | false => exact ((removed_fail env hs.rooted hfailed).vacant hs.rooted).tracks

/-- The two states have the same sessions, roles, events and trace. -/
structure SameRoutes (s t : DestinationRelayAdapter) : Prop where
  events : t.events = s.events
  upstreamSource : t.upstreamSource = s.upstreamSource
  descriptor : t.descriptor = s.descriptor
  sessions : t.sessions = s.sessions
  roles : t.roles = s.roles
  trace : t.trace = s.trace

theorem relocatedRole_congr (hsessions : t.sessions = s.sessions)
    (hdescriptor : t.descriptor = s.descriptor) (role : ClientSurfaceRole) :
    t.relocatedRole role = s.relocatedRole role := by
  cases role <;> simp only [relocatedRole, relocated, hsessions, hdescriptor]

theorem Ordered.same (e : SameRoutes s t) (hs : s.Ordered) : t.Ordered where
  own x hx := by
    rw [e.sessions] at hx
    rw [e.upstreamSource]
    exact hs.own x hx
  rooted x role hrole := by
    rw [e.roles] at hrole
    rw [e.sessions]
    exact hs.rooted x role hrole

theorem Tracks.same (e : SameRoutes s t) (hs : s.Tracks) : t.Tracks where
  toOrdered := hs.toOrdered.same e
  published x role hrole r hr := by
    rw [e.roles] at hrole
    rw [relocatedRole_congr e.sessions e.descriptor] at hr
    rw [DestinationRelayAdapter.relocated, e.descriptor, e.trace]
    exact hs.published x role hrole r hr

/-! ### Publishing a role -/

section PublishRole

variable (x : ClientSurfaceId) (role : ClientSurfaceRole)

@[simp] theorem sessions_publishRole : (s.publishRole x role).sessions = s.sessions := by
  unfold publishRole
  split <;> rfl

@[simp] theorem roles_publishRole : (s.publishRole x role).roles = s.roles := by
  unfold publishRole
  split <;> rfl

@[simp] theorem upstreamSource_publishRole :
    (s.publishRole x role).upstreamSource = s.upstreamSource := by
  unfold publishRole
  split <;> rfl

@[simp] theorem relocated_publishRole (y : ClientSurfaceId) :
    (s.publishRole x role).relocated y = s.relocated y := by
  unfold publishRole
  split <;> rfl

@[simp] theorem relocatedRole_publishRole (role' : ClientSurfaceRole) :
    (s.publishRole x role).relocatedRole role' = s.relocatedRole role' := by
  unfold publishRole
  split <;> rfl

/-- Publishing the role of one surface tells nothing of the others. -/
theorem lastRole_publishRole (d : ClientSurfaceId) :
    lastRole d (s.publishRole x role).trace =
      if s.relocated x = d then (s.relocatedRole role).or (lastRole d s.trace)
      else lastRole d s.trace := by
  unfold publishRole
  cases hrole : s.relocatedRole role with
  | none => simp
  | some r => simp only [publish, lastRole_append, noteRole, Option.some_or]

end PublishRole

theorem Ordered.publishRole (hs : s.Ordered) (x : ClientSurfaceId) (role : ClientSurfaceRole) :
    (s.publishRole x role).Ordered := by
  refine ⟨?_, ?_⟩
  · intro y hy
    rw [sessions_publishRole] at hy
    rw [upstreamSource_publishRole]
    exact hs.own y hy
  · intro y r hr
    rw [roles_publishRole] at hr
    rw [sessions_publishRole]
    exact hs.rooted y r hr

/-- Mapped surfaces keep apart under the names of the destination. -/
theorem Ordered.relocated_inj (hs : s.Ordered) {y : ClientSurfaceId} (hx : x ∈ s.sessions)
    (hy : y ∈ s.sessions) (h : s.relocated x = s.relocated y) : x = y := by
  refine relocatedSurface_injOn ?_ h
  rw [hs.own x hx, hs.own y hy]

/-- After its role is published, what was published of a surface follows; the others keep what
they had. -/
theorem published_publishRole (hs : s.Ordered) {y : ClientSurfaceId} {role' : ClientSurfaceRole}
    (hx : s.roles.lookup x = some role) (hy : s.roles.lookup y = some role')
    (h : y = x ∨ s.Published y role') : (s.publishRole x role).Published y role' := by
  intro r hr
  rw [relocatedRole_publishRole] at hr
  rw [relocated_publishRole, lastRole_publishRole]
  by_cases hyx : y = x
  · subst hyx
    rw [hx] at hy
    cases hy
    rw [if_pos rfl, hr]
    rfl
  · rw [if_neg]
    · exact h.resolve_left hyx r hr
    · intro heq
      exact hyx (hs.relocated_inj (hs.rooted x role hx) (hs.rooted y role' hy) heq).symm

/-- Publishing the roles of a list of surfaces catches up with these. -/
theorem Tracks.publishRoles {l : List (ClientSurfaceId × ClientSurfaceRole)} (hs : s.Ordered)
    (hl : ∀ child ∈ l, s.roles.lookup child.1 = some child.2)
    (h : ∀ y role, s.roles.lookup y = some role → (y, role) ∈ l ∨ s.Published y role) :
    (l.foldl (fun s child => s.publishRole child.1 child.2) s).Tracks := by
  induction l generalizing s with
  | nil => exact ⟨hs, fun y role hy => (h y role hy).resolve_left List.not_mem_nil⟩
  | cons child l ih =>
      have hchild := hl child List.mem_cons_self
      refine ih (hs.publishRole _ _) ?_ ?_
      · intro c hc
        rw [roles_publishRole]
        exact hl c (List.mem_cons_of_mem child hc)
      · intro y role hy
        rw [roles_publishRole] at hy
        rcases h y role hy with hmem | hpublished
        · rcases List.mem_cons.mp hmem with heq | hrest
          · rw [← heq]
            exact Or.inr (published_publishRole hs hy hy (Or.inl rfl))
          · exact Or.inl hrest
        · exact Or.inr (published_publishRole hs hchild hy (Or.inr hpublished))

/-- A new role is published at once. -/
theorem Tracks.setRole (hs : s.Tracks) (hx : x ∈ s.sessions) (role : ClientSurfaceRole) :
    ((s.setRole x role).publishRole x role).Tracks := by
  have hordered : (s.setRole x role).Ordered := by
    refine ⟨hs.own, fun y r hr => ?_⟩
    rw [DestinationRelayAdapter.setRole, lookup_insert_eq] at hr
    split_ifs at hr with hy
    · rw [hy]
      exact hx
    · exact hs.rooted y r hr
  have hrole : (s.setRole x role).roles.lookup x = some role := lookup_insert _
  refine Tracks.publishRoles (l := [(x, role)]) hordered ?_ ?_
  · intro child hchild
    rw [List.mem_singleton.mp hchild]
    exact hrole
  · intro y r hr
    by_cases hy : y = x
    · rw [hy, hrole] at hr
      cases hr
      exact Or.inl (by rw [hy]; exact List.mem_cons_self)
    · rw [DestinationRelayAdapter.setRole, lookup_insert_eq, if_neg hy] at hr
      exact Or.inr fun relocated hrelocated => hs.published y r hr relocated hrelocated

/-! ### Mapping a surface -/

/-- A role that does not name a surface is not affected when that surface is mapped. -/
theorem relocatedRole_enlist (h : role.referent ≠ some x) :
    (s.enlist session x).relocatedRole role = s.relocatedRole role := by
  cases role with
  | layer => rfl
  | toplevel state =>
      cases hp : state.parent with
      | none => simp [relocatedRole, hp]
      | some parent =>
          have hne : parent ≠ x := by
            rintro rfl
            exact h hp
          simp [relocatedRole, hp, enlist, hne, relocated]
  | popup state =>
      have hne : state.owner ≠ x := by
        rintro rfl
        exact h rfl
      simp [relocatedRole, enlist, hne, relocated]

theorem mem_childrenOf {parent : ClientSurfaceId} {child : ClientSurfaceId × ClientSurfaceRole} :
    child ∈ s.childrenOf env parent ↔
      s.roles.lookup child.1 = some child.2 ∧ child.2.referent = some parent ∧
        child.1 ∈ s.sessions := by
  obtain ⟨surface, role⟩ := child
  simp only [childrenOf, List.mem_filterMap, IterationOrder.mem_arrange]
  constructor
  · rintro ⟨x, -, hx⟩
    split at hx
    · rename_i found hfound
      split_ifs at hx with hchild
      cases hx
      exact ⟨hfound, hchild⟩
    · cases hx
  · rintro ⟨hrole, hchild⟩
    refine ⟨surface, mem_keys_of_lookup hrole, ?_⟩
    rw [hrole]
    exact if_pos hchild

theorem Ordered.enlist (hs : s.Ordered) (session : HoistSessionId) (hsource : x.source = s.upstreamSource) :
    (s.enlist session x).Ordered := by
  refine ⟨fun y hy => ?_, fun y r hr => ?_⟩
  · rcases (mem_insert _).mp hy with rfl | hmem
    · exact hsource
    · exact hs.own y hmem
  · exact (mem_insert _).mpr (Or.inr (hs.rooted y r hr))

/-- A surface that was just enlisted refreshes the surfaces whose role names it. -/
theorem Tracks.refresh (hs : s.Tracks) (hsource : x.source = s.upstreamSource)
    (ht : SameRoutes (s.enlist session x) t) : (t.refreshChildrenOf env x).Tracks := by
  have hordered : t.tick.Ordered := (hs.enlist session hsource).same
    ⟨ht.events, ht.upstreamSource, ht.descriptor, ht.sessions, ht.roles, ht.trace⟩
  refine Tracks.publishRoles hordered ?_ ?_
  · intro child hchild
    exact (mem_childrenOf.mp hchild).1
  · intro y role hy
    by_cases hreferent : role.referent = some x
    · exact Or.inl (mem_childrenOf.mpr ⟨hy, hreferent, hordered.rooted y role hy⟩)
    · right
      intro r hr
      have hrole : s.roles.lookup y = some role := by
        have hroles := ht.roles
        rw [DestinationRelayAdapter.enlist] at hroles
        rw [← hroles]
        exact hy
      have hform : t.relocatedRole role = s.relocatedRole role := by
        rw [relocatedRole_congr ht.sessions ht.descriptor, relocatedRole_enlist hreferent]
      have htrace : t.trace = s.trace ++ [.mapped (s.relocated x)] := ht.trace
      have hname : t.tick.relocated y = s.relocated y := by
        rw [relocated, relocated]
        exact congrArg (relocatedSurface · y) ht.descriptor
      rw [hname]
      change lastRole (s.relocated y) t.trace = some r
      rw [htrace, lastRole_append]
      exact hs.published y role hrole r (hform ▸ hr)

/-- The port takes the routes of a relay that has failed already: failing is not what takes them
away again. -/
theorem Tracks.mapSurface (hs : s.Tracks)
    (hport : s.failed = true → x ∉ s.sessions → env.submit s.calls = .ok ()) :
    (s.mapSurface env session x).1.Tracks := by
  unfold DestinationRelayAdapter.mapSurface
  split_ifs with hsource
  · exact hs.fail
  · rw [not_not] at hsource
    split
    · split_ifs
      · exact hs
      · exact hs.fail
    · rename_i hnone
      have hnot : x ∉ s.sessions := lookup_eq_none.mp hnone
      unfold DestinationRelayAdapter.submit
      cases hanswer : env.submit (s.enlist session x).calls with
      | ok _ => exact hs.refresh hsource ⟨rfl, rfl, rfl, rfl, rfl, rfl⟩
      | error reason =>
          cases hfailed : s.failed with
          | true =>
              have hok := hport hfailed hnot
              have hcalls : env.submit s.calls = .error reason := hanswer
              rw [hcalls] at hok
              cases hok
          | false =>
              have hordered := hs.enlist session hsource
              exact (Removed.vacant (s := (s.enlist session x).tick) hordered.rooted
                (removed_fail env hordered.rooted hfailed)).tracks

/-! ### The trace -/

/-- The trace agrees with the sessions: nothing was published for a surface that is not mapped, and
the routed surfaces are the mapped ones and those in `extra`, which are about to be published as
destroyed. -/
structure Routes (extra : ClientSurfaceId → Prop) (s : DestinationRelayAdapter) : Prop
    extends Ordered s where
  apart : ∀ x, extra x → x ∉ s.sessions ∧ x.source = s.upstreamSource
  wellRouted : WellRouted s.trace
  routed : ∀ d, routed d s.trace = true ↔ ∃ x, (x ∈ s.sessions ∨ extra x) ∧ s.relocated x = d

section Routes

variable {extra : ClientSurfaceId → Prop}

theorem Routes.same (e : SameRoutes s t) (hs : s.Routes extra) : t.Routes extra where
  toOrdered := hs.toOrdered.same e
  apart x hx := by
    rw [e.sessions, e.upstreamSource]
    exact hs.apart x hx
  wellRouted := by
    rw [e.trace]
    exact hs.wellRouted
  routed d := by
    rw [e.trace, e.sessions, hs.routed]
    simp only [relocated, e.descriptor]

section

variable (hs : s.Routes extra)
include hs

variable (env) in
theorem Routes.retire (hx : x ∈ s.sessions) : (s.retire env x).Routes fun y => extra y ∨ y = x where
  own y hy := hs.own y (mem_erase.mp hy).2
  rooted y r hr := by
    simp only [DestinationRelayAdapter.retire, lookup_erase_eq] at hr ⊢
    split_ifs at hr with hy
    exact mem_erase.mpr ⟨hy, hs.rooted y r hr⟩
  apart y hy := by
    rcases hy with hextra | rfl
    · obtain ⟨hnot, hsource⟩ := hs.apart y hextra
      exact ⟨fun hmem => hnot (mem_erase.mp hmem).2, hsource⟩
    · exact ⟨fun hmem => (mem_erase.mp hmem).1 rfl, hs.own y hx⟩
  wellRouted := hs.wellRouted
  routed d := by
    refine (hs.routed d).trans (exists_congr fun y => and_congr_left fun _ => ?_)
    by_cases hy : y = x
    · subst hy
      simp [hx]
    · simp [DestinationRelayAdapter.retire, mem_erase, hy]

omit hs in
theorem Routes.publishDestroyed (hs : s.Routes fun y => extra y ∨ y = x) (hx : ¬ extra x) :
    (s.publish ⟨s.relocated x, .destroyed⟩).Routes extra where
  own := hs.own
  rooted := hs.rooted
  apart y hy := hs.apart y (Or.inl hy)
  wellRouted := by
    refine hs.wellRouted.concat ?_
    rintro event ⟨⟩
    exact (hs.routed _).mpr ⟨x, Or.inr (Or.inr rfl), rfl⟩
  routed d := by
    rw [publish, routed_append, noteRoute, Bool.and_eq_true, hs.routed, bne_iff_ne]
    constructor
    · rintro ⟨⟨y, hy, rfl⟩, hne⟩
      refine ⟨y, ?_, rfl⟩
      rcases hy with hmem | hextra | rfl
      · exact Or.inl hmem
      · exact Or.inr hextra
      · exact absurd rfl hne
    · rintro ⟨y, hy, rfl⟩
      refine ⟨⟨y, hy.imp_right Or.inl, rfl⟩, ?_⟩
      intro heq
      obtain ⟨hnot, hsource⟩ := hs.apart x (Or.inr rfl)
      have hsame : y.source = x.source := by
        rw [hsource]
        rcases hy with hmem | hextra
        · exact hs.own y hmem
        · exact (hs.apart y (Or.inl hextra)).2
      have hyx : y = x := relocatedSurface_injOn hsame heq.symm
      subst hyx
      exact hy.elim hnot hx

theorem Routes.dropCursor (x : ClientSurfaceId) : (s.dropCursor x).Routes extra :=
  Routes.same (s := s) ⟨rfl, rfl, rfl, rfl, rfl, rfl⟩ hs

theorem Routes.destroyQuietly (x : ClientSurfaceId) : (s.destroyQuietly env x).Routes extra := by
  unfold DestinationRelayAdapter.destroyQuietly
  split_ifs with hmem
  · exact ((hs.dropCursor x).retire env hmem).publishDestroyed fun hx => (hs.apart x hx).1 hmem
  · exact hs.dropCursor x

theorem Routes.fail : (s.fail env).Routes extra := by
  unfold DestinationRelayAdapter.fail
  split_ifs
  · exact hs
  · refine Cascade.foldl_invariant (P := Routes extra) (fun t x _ ht => ht.destroyQuietly x) ?_
    exact Routes.same (s := s) ⟨rfl, rfl, rfl, rfl, rfl, rfl⟩ hs

variable (env) in
theorem Routes.submit (command : DestinationPortCommand) : (s.submit env command).1.Routes extra := by
  unfold DestinationRelayAdapter.submit
  split
  · exact Routes.same (s := s) ⟨rfl, rfl, rfl, rfl, rfl, rfl⟩ hs
  · exact Routes.fail (Routes.same (s := s) ⟨rfl, rfl, rfl, rfl, rfl, rfl⟩ hs)

end

end Routes

@[simp] theorem descriptor_fail : (s.fail env).descriptor = s.descriptor := by
  unfold DestinationRelayAdapter.fail
  split_ifs
  · rfl
  · refine Cascade.foldl_invariant (P := fun t : DestinationRelayAdapter => t.descriptor = s.descriptor) ?_ rfl
    intro t x _ ht
    unfold DestinationRelayAdapter.destroyQuietly
    split_ifs
    · exact ht
    · exact ht

@[simp] theorem descriptor_submit (command : DestinationPortCommand) :
    (s.submit env command).1.descriptor = s.descriptor := by
  unfold DestinationRelayAdapter.submit
  split
  · rfl
  · exact descriptor_fail

section Records

variable {extra : ClientSurfaceId → Prop}

theorem Routes.destroySurface (hs : s.Routes extra) (x : ClientSurfaceId) :
    (s.destroySurface env x).Routes extra := by
  unfold DestinationRelayAdapter.destroySurface
  split_ifs with hmem
  · have hretired := ((hs.dropCursor x).retire env hmem).submit env (.routeUnmapped (s.relocated x))
    have hname : s.relocated x = (((s.dropCursor x).retire env x).submit env
        (.routeUnmapped (s.relocated x))).1.relocated x := by
      rw [relocated, relocated, descriptor_submit]
      rfl
    have hpublished := hretired.publishDestroyed fun hx => (hs.apart x hx).1 hmem
    rw [← hname] at hpublished
    exact hpublished
  · exact hs.dropCursor x

variable {kind : ClientSurfaceEventKind}

/-- A mapped surface has something to say that is not its destruction. -/
theorem Routes.publish (hs : s.Routes extra) (hx : x ∈ s.sessions) (hkind : kind ≠ .destroyed) :
    (s.publish ⟨s.relocated x, kind⟩).Routes extra where
  own := hs.own
  rooted := hs.rooted
  apart := hs.apart
  wellRouted := by
    refine hs.wellRouted.concat ?_
    rintro event ⟨⟩
    exact (hs.routed _).mpr ⟨x, Or.inl hx, rfl⟩
  routed d := by
    have hsame : RouteEvent.routed d (s.trace ++ [.published ⟨s.relocated x, kind⟩]) =
        RouteEvent.routed d s.trace := by
      rw [routed_append]
      cases kind with
      | destroyed => exact absurd rfl hkind
      | role | commit | interaction | stateRequest | metadata => rfl
    rw [DestinationRelayAdapter.publish, hsame]
    exact hs.routed d

theorem Routes.publishRole (hs : s.Routes extra) (hx : x ∈ s.sessions) (role : ClientSurfaceRole) :
    (s.publishRole x role).Routes extra := by
  unfold DestinationRelayAdapter.publishRole
  split
  · exact hs.publish hx (by simp)
  · exact hs

theorem Routes.enlist (hs : s.Routes fun _ => False) (session : HoistSessionId)
    (hsource : x.source = s.upstreamSource) :
    (s.enlist session x).Routes fun _ => False where
  toOrdered := hs.toOrdered.enlist session hsource
  apart _ h := h.elim
  wellRouted := hs.wellRouted.concat (by simp)
  routed d := by
    rw [DestinationRelayAdapter.enlist, routed_append, noteRoute, Bool.or_eq_true, hs.routed,
      beq_iff_eq]
    constructor
    · rintro (⟨y, hy, rfl⟩ | rfl)
      · exact ⟨y, Or.inl ((mem_insert _).mpr (Or.inr (hy.resolve_right id))), rfl⟩
      · exact ⟨x, Or.inl ((mem_insert _).mpr (Or.inl rfl)), rfl⟩
    · rintro ⟨y, hy, rfl⟩
      rcases (mem_insert _).mp (hy.resolve_right id) with rfl | hmem
      · exact Or.inr rfl
      · exact Or.inl ⟨y, Or.inl hmem, rfl⟩

theorem Routes.refresh (hs : s.Routes extra) (x : ClientSurfaceId) :
    (s.refreshChildrenOf env x).Routes extra := by
  have htick : s.tick.Routes extra := Routes.same (s := s) ⟨rfl, rfl, rfl, rfl, rfl, rfl⟩ hs
  have hboth := Cascade.foldl_invariant
    (P := fun t : DestinationRelayAdapter => t.Routes extra ∧ t.sessions = s.sessions)
    (f := fun s child => s.publishRole child.1 child.2) (l := s.childrenOf env x) ?_ ⟨htick, rfl⟩
  · exact hboth.1
  · rintro t child hchild ⟨ht, hsessions⟩
    refine ⟨ht.publishRole ?_ _, by rw [sessions_publishRole, hsessions]⟩
    rw [hsessions]
    exact (mem_childrenOf.mp hchild).2.2

theorem Routes.mapSurface (hs : s.Routes fun _ => False) (session : HoistSessionId)
    (x : ClientSurfaceId) : (s.mapSurface env session x).1.Routes fun _ => False := by
  unfold DestinationRelayAdapter.mapSurface
  split_ifs with hsource
  · exact hs.fail
  · rw [not_not] at hsource
    split
    · split_ifs
      · exact hs
      · exact hs.fail
    · have hsubmit := (hs.enlist session hsource).submit env (.routeMapped x (s.relocated x))
      simp only []
      split_ifs
      · exact hsubmit.refresh x
      · exact hsubmit

theorem Tracks.recordCursor (hs : s.Tracks) (update : ClientCursorUpdate) :
    (s.recordCursor update).Tracks where
  own := hs.own
  rooted := hs.rooted
  published x role hrole r hr := by
    rw [DestinationRelayAdapter.recordCursor, lastRole_append]
    exact hs.published x role hrole r ((relocatedRole_congr rfl rfl role).symm.trans hr)

theorem Routes.recordCursor (hs : s.Routes extra) (update : ClientCursorUpdate) :
    (s.recordCursor update).Routes extra where
  own := hs.own
  rooted := hs.rooted
  apart := hs.apart
  wellRouted := hs.wellRouted.concat (by simp)
  routed d := by
    rw [DestinationRelayAdapter.recordCursor, routed_append]
    exact hs.routed d

theorem Tracks.publish (hs : s.Tracks) (x : ClientSurfaceId) (hkind : ∀ role, kind ≠ .role role) :
    (s.publish ⟨x, kind⟩).Tracks where
  own := hs.own
  rooted := hs.rooted
  published y role hrole r hr := by
    have hsame : ∀ d, lastRole d (s.trace ++ [.published ⟨x, kind⟩]) = lastRole d s.trace := by
      intro d
      rw [lastRole_append]
      cases kind with
      | role role => exact absurd rfl (hkind role)
      | destroyed | commit | interaction | stateRequest | metadata => rfl
    rw [DestinationRelayAdapter.publish, hsame]
    exact hs.published y role hrole r ((relocatedRole_congr rfl rfl role).symm.trans hr)

end Records

/-! ### What concerns neither sessions nor roles -/

/-- A property of sessions, roles, events and trace that survives failing, remembering a cursor and
handing the events to the host. -/
structure Lasting (env : DestinationEnvironment) (P : DestinationRelayAdapter → Prop) : Prop where
  same : ∀ {s t}, SameRoutes s t → P s → P t
  drain : ∀ {s}, P s → P s.drainEvents.1
  fail : ∀ {s}, P s → P (s.fail env)
  cursor : ∀ {s} (update : ClientCursorUpdate), P s → P (s.recordCursor update)

namespace Lasting

variable {P : DestinationRelayAdapter → Prop} (hP : Lasting env P)
include hP

section

variable (h : P s)
include h

theorem submit (command : DestinationPortCommand) : P (s.submit env command).1 := by
  unfold DestinationRelayAdapter.submit
  split
  · exact hP.same (s := s) ⟨rfl, rfl, rfl, rfl, rfl, rfl⟩ h
  · exact hP.fail (hP.same (s := s) ⟨rfl, rfl, rfl, rfl, rfl, rfl⟩ h)

theorem applyCursor (session : HoistSessionId) (update : ClientCursorUpdate) (sequence : ℕ) :
    P (s.applyCursor env session update sequence).1 := by
  unfold DestinationRelayAdapter.applyCursor
  split_ifs
  · exact hP.fail h
  · split
    · split_ifs
      · exact hP.fail h
      · exact hP.submit (hP.cursor update h) _
    · exact hP.submit h _

theorem sendGamepad : P (s.sendGamepad env) := by
  unfold DestinationRelayAdapter.sendGamepad
  split_ifs
  · exact h
  · split
    · exact h
    · split
      · exact h
      · refine hP.submit ?_ _
        exact hP.same (s := s) ⟨rfl, rfl, rfl, rfl, rfl, rfl⟩ h

theorem applyRequest (request : ClientRequest) : P (s.applyRequest env request) := by
  unfold DestinationRelayAdapter.applyRequest
  split
  · exact h
  · unfold applyRequestTo
    split
    · split_ifs
      · exact hP.submit h _
      · exact h
    · refine hP.submit ?_ _
      exact hP.same (s := s) ⟨rfl, rfl, rfl, rfl, rfl, rfl⟩ h

theorem applyInput (event : ClientInputEvent) : P (s.applyInput env event) := by
  have hrecord : P (s.recordInput event) := hP.same (s := s) ⟨rfl, rfl, rfl, rfl, rfl, rfl⟩ h
  unfold DestinationRelayAdapter.applyInput
  split
  · exact h
  · split_ifs
    · exact hP.submit hrecord _
    · exact hrecord

theorem applyRelease (previousFocus : Option ClientSurfaceId) (effect : ClientAdapterEffect) :
    P (applyRelease env previousFocus s effect) := by
  unfold DestinationRelayAdapter.applyRelease
  split_ifs
  · exact h
  · cases effect with
    | inputDisconnected | inputConnected => exact h
    | input input =>
        simp only []
        split
        · exact h
        · exact hP.submit h _
    | request request =>
        refine hP.applyRequest ?_ request
        exact hP.same (s := s) ⟨rfl, rfl, rfl, rfl, rfl, rfl⟩ h

theorem hostFocusLost (time : ℕ) : P (s.hostFocusLost env time) := by
  refine Cascade.foldl_invariant (P := P) (fun t effect _ ht => hP.applyRelease ht _ effect) ?_
  exact hP.same (s := s) ⟨rfl, rfl, rfl, rfl, rfl, rfl⟩ h

/-- Whatever is not a record about a surface. -/
theorem step {event : DestinationEvent} (hrecord : ∀ record, event = .record record → (∃ status,
      record.event = .gamepad status) ∨ ∃ update sequence, record.event = .cursor update sequence) :
    P (s.step env event) := by
  cases event with
  | record record =>
      simp only [DestinationRelayAdapter.step, applyRecord]
      rcases hrecord record rfl with ⟨status, hevent⟩ | ⟨update, sequence, hevent⟩
      · rw [hevent]
        split_ifs
        · exact hP.fail h
        · exact hP.same (s := s) ⟨rfl, rfl, rfl, rfl, rfl, rfl⟩ h
      · rw [hevent]
        exact hP.applyCursor h _ _ _
  | pollFailed => exact hP.fail h
  | sendGamepad => exact hP.sendGamepad h
  | gamepad use => exact hP.same (s := s) ⟨rfl, rfl, rfl, rfl, rfl, rfl⟩ h
  | applyRequest request => exact hP.applyRequest h request
  | applyInput event => exact hP.applyInput h event
  | hostFocusLost time => exact hP.hostFocusLost h time
  | drainEvents => exact hP.drain h
  | drainCursorUpdates => exact hP.same (s := s) ⟨rfl, rfl, rfl, rfl, rfl, rfl⟩ h

end

end Lasting

theorem Tracks.lasting : Lasting env Tracks where
  same e h := h.same e
  drain h := ⟨⟨h.own, h.rooted⟩, fun x role hrole r hr =>
    h.published x role hrole r ((relocatedRole_congr rfl rfl role).symm.trans hr)⟩
  fail h := h.fail
  cursor update h := h.recordCursor update

theorem Routes.lasting (extra : ClientSurfaceId → Prop) : Lasting env (Routes extra) where
  same e h := h.same e
  drain h := ⟨⟨h.own, h.rooted⟩, h.apart, h.wellRouted, h.routed⟩
  fail h := h.fail
  cursor update h := h.recordCursor update

/-! ### Steps -/

/-- The step takes no mapped surface away that a toplevel that stays names as its parent; and the
port takes the routes of a relay that has failed already. -/
def Spares (env : DestinationEnvironment) (s : DestinationRelayAdapter) : DestinationEvent → Prop
  | .record ⟨session, .surface ⟨x, .destroyed⟩⟩ =>
      s.sessions.lookup x = some session → Spared (· = x) s
  | .record ⟨_, .withdrawSurface x⟩ => Spared (· = x) s
  | .record ⟨session, .ended⟩ => Spared (fun x => s.sessions.lookup x = some session) s
  | .record ⟨_, .mappedSurface x⟩ =>
      s.failed = true → x ∉ s.sessions → env.submit s.calls = .ok ()
  | _ => True

theorem Tracks.destroySurface (hs : s.Tracks) (hok : Spared (· = x) s) : (s.destroySurface env x).Tracks := by
  rcases removed_destroySurface env hs.rooted x with hremoved | hvacant
  · exact hs.removed hremoved hok
  · exact hvacant.tracks

theorem Tracks.applySurface (hs : s.Tracks) (hok : Spares env s (.record ⟨session, .surface event⟩)) :
    (s.applySurface env session event).1.Tracks := by
  obtain ⟨x, kind⟩ := event
  unfold DestinationRelayAdapter.applySurface
  split_ifs with hsource hsession
  · exact hs.fail
  · exact hs.fail
  · rw [not_not] at hsession
    have hx : x ∈ s.sessions := mem_of_lookup hsession
    cases kind with
    | destroyed => exact hs.destroySurface (hok hsession)
    | role role =>
        cases role with
        | layer => exact hs.fail
        | toplevel state => exact hs.setRole hx (.toplevel state)
        | popup state => exact hs.setRole hx (.popup state)
    | commit commit => exact hs.publish _ (by simp)
    | interaction | stateRequest | metadata => exact hs.publish _ (by simp)

theorem Routes.applySurface (hs : s.Routes fun _ => False) (session : HoistSessionId)
    (event : ClientSurfaceEvent) :
    (s.applySurface env session event).1.Routes fun _ => False := by
  obtain ⟨x, kind⟩ := event
  unfold DestinationRelayAdapter.applySurface
  split_ifs with hsource hsession
  · exact hs.fail
  · exact hs.fail
  · rw [not_not] at hsession
    have hx : x ∈ s.sessions := mem_of_lookup hsession
    have hset : ∀ role, (s.setRole x role).Routes fun _ => False := by
      intro role
      refine ⟨⟨hs.own, fun y r hr => ?_⟩, hs.apart, hs.wellRouted, hs.routed⟩
      rw [setRole, lookup_insert_eq] at hr
      split_ifs at hr with hy
      · rw [hy]
        exact hx
      · exact hs.rooted y r hr
    cases kind with
    | destroyed => exact hs.destroySurface x
    | role role =>
        cases role with
        | layer => exact hs.fail
        | toplevel state => exact (hset _).publishRole hx (.toplevel state)
        | popup state => exact (hset _).publishRole hx (.popup state)
    | commit commit => exact hs.publish hx (by simp)
    | interaction | stateRequest | metadata => exact hs.publish hx (by simp)

/-- **One step keeps the published roles current.** -/
theorem Tracks.step (hs : s.Tracks) {event : DestinationEvent} (hok : Spares env s event) :
    (s.step env event).Tracks := by
  cases event with
  | record record =>
      obtain ⟨session, event⟩ := record
      cases event with
      | gamepad status => exact Tracks.lasting.step hs (by rintro _ ⟨⟩; exact Or.inl ⟨_, rfl⟩)
      | cursor update sequence =>
          exact Tracks.lasting.step hs (by rintro _ ⟨⟩; exact Or.inr ⟨_, _, rfl⟩)
      | mappedSurface x => exact hs.mapSurface hok
      | surface event => exact hs.applySurface hok
      | withdrawSurface x => exact hs.destroySurface hok
      | ended =>
          rcases removed_endSession env hs.rooted session with hremoved | hvacant
          · exact hs.removed hremoved hok
          · exact hvacant.tracks
  | _ => exact Tracks.lasting.step hs (by simp)

/-- **One step keeps the trace in order.** -/
theorem Routes.step (hs : s.Routes fun _ => False) (event : DestinationEvent) :
    (s.step env event).Routes fun _ => False := by
  cases event with
  | record record =>
      obtain ⟨session, event⟩ := record
      cases event with
      | gamepad status =>
          exact (Routes.lasting _).step hs (by rintro _ ⟨⟩; exact Or.inl ⟨_, rfl⟩)
      | cursor update sequence =>
          exact (Routes.lasting _).step hs (by rintro _ ⟨⟩; exact Or.inr ⟨_, _, rfl⟩)
      | mappedSurface x => exact hs.mapSurface session x
      | surface event => exact hs.applySurface session event
      | withdrawSurface x => exact hs.destroySurface x
      | ended =>
          refine Cascade.foldl_invariant (P := Routes fun _ => False)
            (fun t x _ ht => ht.destroySurface x) ?_
          exact Routes.same (s := s) ⟨rfl, rfl, rfl, rfl, rfl, rfl⟩ hs
  | _ => exact (Routes.lasting _).step hs (by simp)

/-! ### What the host takes -/

/-! ### Runs -/

theorem vacant_new (upstreamSource descriptor : ClientSourceId) (gamepad : Option Pending) :
    (new upstreamSource descriptor gamepad).Vacant := by
  refine ⟨?_, ?_⟩
  · intro x role hrole
    simp [new] at hrole
  · intro x hx
    simp [new] at hx

theorem routes_new (upstreamSource descriptor : ClientSourceId) (gamepad : Option Pending) :
    (new upstreamSource descriptor gamepad).Routes fun _ => False where
  own x hx := by simp [new] at hx
  rooted x role hrole := by simp [new] at hrole
  apart _ h := h.elim
  wellRouted earlier event later h := by simp [new] at h
  routed d := by simp [new, RouteEvent.routed]

/-- What a relocated role names is a mapped surface. -/
theorem referent_relocatedRole {r : ClientSurfaceRole} (h : s.relocatedRole role = some r) :
    ∀ y, r.referent = some y ↔ ∃ x ∈ s.sessions, role.referent = some x ∧ s.relocated x = y := by
  intro y
  cases role with
  | layer => cases h
  | toplevel state =>
      cases h
      cases hp : state.parent with
      | none => simp [ClientSurfaceRole.referent, hp]
      | some parent =>
          by_cases hmem : parent ∈ s.sessions <;> simp [ClientSurfaceRole.referent, hp, hmem]
  | popup state =>
      simp only [relocatedRole] at h
      split_ifs at h with howner
      cases h
      simp [ClientSurfaceRole.referent, howner]

/-- A window and its dialog are mapped, each under a session of its own. -/
def dialogRun : List DestinationEvent :=
  [.record ⟨1, .mappedSurface ⟨⟨0, 0⟩, 1⟩⟩, .record ⟨2, .mappedSurface ⟨⟨0, 0⟩, 2⟩⟩,
    .record ⟨1, .surface ⟨⟨⟨0, 0⟩, 1⟩, .role (.toplevel {})⟩⟩,
    .record ⟨2, .surface ⟨⟨⟨0, 0⟩, 2⟩, .role (.toplevel { parent := some ⟨⟨0, 0⟩, 1⟩ })⟩⟩]

/-- The dialog is taken away. -/
def dialogClosedRun : List DestinationEvent :=
  dialogRun ++ [.record ⟨2, .withdrawSurface ⟨⟨0, 0⟩, 2⟩⟩]

end DestinationRelayAdapter

end Hoist
