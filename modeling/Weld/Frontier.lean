/-
**Frontiers of forests.**

A forest is given by the children of its nodes: `kids n` is `none` at a leaf, and the list of children
at an inner node.  The frontier of a list of nodes is what is left when inner nodes are replaced by
their children until there are leaves only, from left to right.  It exists if some rank goes down from
a node to its children, and there is one at most.

In a weighted forest every child has a factor, and a node hands its own weight, times the factor, to
the child.  *Dissolving* an inner node puts its children into its place.  This changes neither the
leaves, nor their order, nor what they weigh.

Main definitions: `Frontier`, `Expands`, `Below`, `weigh`, `dissolve`.

Main results:

* `Frontier.unique`, `Frontier.exists_of_rank` — there is one frontier;
* `Frontier.substitute` — a forest in which every node is replaced by a list of nodes;
* `Frontier.mem_iff` — the leaves are what is reached;
* `Frontier.filter`, `Frontier.contiguous`, `Frontier.nodup` — leaves that are left
  out, leaves that stand together, and leaves that occur once;
* `frontier_dissolve`, `frontier_of_dissolved` — dissolving a node leaves the frontier as
  it is.
-/

import Mathlib.Algebra.Group.Defs
import Mathlib.Data.List.Nodup
import Mathlib.Logic.Relation
import Mathlib.Tactic.SplitIfs

namespace Forest

variable {α β : Type*}

/-! ### Frontiers -/

/-- The leaves under the nodes, from left to right. -/
inductive Frontier (kids : α → Option (List α)) : List α → List α → Prop
  | nil : Frontier kids [] []
  | leaf {n : α} {rest leaves : List α} : kids n = none → Frontier kids rest leaves →
      Frontier kids (n :: rest) (n :: leaves)
  | node {n : α} {children rest leaves : List α} : kids n = some children →
      Frontier kids (children ++ rest) leaves → Frontier kids (n :: rest) leaves

/-- `ns` becomes `ms` when nodes are replaced by their children, one after another. -/
inductive Expands (kids : α → Option (List α)) : List α → List α → Prop
  | refl (ns : List α) : Expands kids ns ns
  | step {front : List α} {n : α} {children rest ms : List α} : kids n = some children →
      Expands kids (front ++ children ++ rest) ms → Expands kids (front ++ n :: rest) ms

/-- The second node is the first one, or under it. -/
def Below (kids : α → Option (List α)) : α → α → Prop :=
  Relation.ReflTransGen fun n child => ∃ children, kids n = some children ∧ child ∈ children

section Basics

variable {kids : α → Option (List α)} {ms : List α}

namespace Frontier

theorem append {ns leaves others : List α} (h : Frontier kids ns leaves) (h' : Frontier kids ms others) :
    Frontier kids (ns ++ ms) (leaves ++ others) := by
  induction h with
  | nil => exact h'
  | leaf hkids _ ih => exact .leaf hkids ih
  | @node n children rest leaves hkids _ ih =>
      rw [List.append_assoc] at ih
      exact .node hkids ih

variable {ns ms leaves : List α}

/-- The frontier of two lists is that of the one, followed by that of the other. -/
theorem of_append (h : Frontier kids (ns ++ ms) leaves) :
    ∃ front back, leaves = front ++ back ∧ Frontier kids ns front ∧ Frontier kids ms back := by
  generalize hall : ns ++ ms = all at h
  induction h generalizing ns with
  | nil =>
      obtain ⟨rfl, rfl⟩ := List.append_eq_nil_iff.mp hall
      exact ⟨[], [], rfl, .nil, .nil⟩
  | @leaf n rest leaves hkids h ih =>
      cases ns with
      | nil => exact ⟨[], n :: leaves, rfl, .nil, by rw [← List.nil_append ms, hall]; exact .leaf hkids h⟩
      | cons m ns =>
          obtain ⟨rfl, hrest⟩ := List.cons_eq_cons.mp hall
          obtain ⟨front, back, rfl, hfront, hback⟩ := ih hrest
          exact ⟨m :: front, back, rfl, .leaf hkids hfront, hback⟩
  | @node n children rest leaves hkids h ih =>
      cases ns with
      | nil => exact ⟨[], leaves, rfl, .nil, by rw [← List.nil_append ms, hall]; exact .node hkids h⟩
      | cons m ns =>
          obtain ⟨rfl, rfl⟩ := List.cons_eq_cons.mp hall
          obtain ⟨front, back, rfl, hfront, hback⟩ := ih (List.append_assoc children ns ms)
          exact ⟨front, back, rfl, .node hkids hfront, hback⟩

/-- There is one frontier at most. -/
theorem unique {others : List α} (h : Frontier kids ns leaves) (h' : Frontier kids ns others) :
    leaves = others := by
  induction h generalizing others with
  | nil => cases h'; rfl
  | leaf hkids _ ih =>
      cases h' with
      | leaf _ hrest => rw [ih hrest]
      | node hsome _ => exact absurd (hkids.symm.trans hsome) nofun
  | node hkids _ ih =>
      cases h' with
      | leaf hnone _ => exact absurd (hnone.symm.trans hkids) nofun
      | node hsome hrest =>
          cases hkids.symm.trans hsome
          exact ih hrest

/-- A node anywhere in the list may be replaced by its children. -/
theorem expand {front rest children : List α} {n : α} (hkids : kids n = some children)
    (h : Frontier kids (front ++ children ++ rest) leaves) :
    Frontier kids (front ++ n :: rest) leaves := by
  rw [List.append_assoc] at h
  obtain ⟨left, right, rfl, hleft, hright⟩ := h.of_append
  exact hleft.append (.node hkids hright)

theorem of_expands (h : Expands kids ns ms) (hms : Frontier kids ms leaves) :
    Frontier kids ns leaves := by
  induction h with
  | refl => exact hms
  | step hkids _ ih => exact expand hkids (ih hms)

/-- There is a frontier, if some rank goes down from a node to its children. -/
theorem exists_of_rank (known : α → Prop) (rank : α → ℕ)
    (hkids : ∀ n children, known n → kids n = some children →
      ∀ child ∈ children, known child ∧ rank child < rank n) (ns : List α) (hns : ∀ n ∈ ns, known n) :
    ∃ leaves, Frontier kids ns leaves := by
  -- one node at a time, by induction on its rank
  have hnode : ∀ bound n, known n → rank n < bound → ∃ leaves, Frontier kids [n] leaves := by
    intro bound
    induction bound with
    | zero => intro n _ hrank; omega
    | succ bound ih =>
        intro n hn hrank
        cases hchildren : kids n with
        | none => exact ⟨[n], .leaf hchildren .nil⟩
        | some children =>
            have hall : ∀ ms : List α, ms ⊆ children → ∃ leaves, Frontier kids ms leaves := by
              intro ms
              induction ms with
              | nil => exact fun _ => ⟨[], .nil⟩
              | cons m ms ihms =>
                  intro hsub
                  obtain ⟨hm, hlt⟩ := hkids n children hn hchildren m (hsub List.mem_cons_self)
                  obtain ⟨front, hfront⟩ := ih m hm (by omega)
                  obtain ⟨back, hback⟩ := ihms fun x hx => hsub (List.mem_cons_of_mem m hx)
                  exact ⟨front ++ back, hfront.append hback⟩
            obtain ⟨leaves, hleaves⟩ := hall children fun _ h => h
            exact ⟨leaves, .node hchildren (by rw [List.append_nil]; exact hleaves)⟩
  induction ns with
  | nil => exact ⟨[], .nil⟩
  | cons n ns ih =>
      obtain ⟨front, hfront⟩ := hnode (rank n + 1) n (hns n List.mem_cons_self) (by omega)
      obtain ⟨back, hback⟩ := ih fun m hm => hns m (List.mem_cons_of_mem n hm)
      exact ⟨front ++ back, hfront.append hback⟩

/-- The frontier consists of the leaves that are reached. -/
theorem mem_iff (h : Frontier kids ns leaves) {x : α} :
    x ∈ leaves ↔ kids x = none ∧ ∃ n ∈ ns, Below kids n x := by
  induction h with
  | nil => exact ⟨nofun, fun ⟨_, _, hn, _⟩ => absurd hn nofun⟩
  | @leaf n rest leaves hkids _ ih =>
      rw [List.mem_cons, ih]
      constructor
      · rintro (rfl | ⟨hx, m, hm, hbelow⟩)
        · exact ⟨hkids, x, List.mem_cons_self, .refl⟩
        · exact ⟨hx, m, List.mem_cons_of_mem n hm, hbelow⟩
      · rintro ⟨hx, m, hm, hbelow⟩
        rcases List.mem_cons.mp hm with rfl | hm
        · rcases hbelow.cases_head with rfl | ⟨_, ⟨_, hsome, _⟩, _⟩
          · exact .inl rfl
          · exact absurd (hkids.symm.trans hsome) nofun
        · exact .inr ⟨hx, m, hm, hbelow⟩
  | @node n children rest leaves hkids _ ih =>
      rw [ih]
      constructor
      · rintro ⟨hx, m, hm, hbelow⟩
        rcases List.mem_append.mp hm with hm | hm
        · exact ⟨hx, n, List.mem_cons_self, .head ⟨children, hkids, hm⟩ hbelow⟩
        · exact ⟨hx, m, List.mem_cons_of_mem n hm, hbelow⟩
      · rintro ⟨hx, m, hm, hbelow⟩
        rcases List.mem_cons.mp hm with rfl | hm
        · rcases hbelow.cases_head with rfl | ⟨child, ⟨_, hsome, hchild⟩, hrest⟩
          · exact absurd (hx.symm.trans hkids) nofun
          · cases hkids.symm.trans hsome
            exact ⟨hx, child, List.mem_append_left rest hchild, hrest⟩
        · exact ⟨hx, m, List.mem_append_right children hm, hbelow⟩

end Frontier

namespace Expands

theorem trans {ns ls : List α} (h : Expands kids ns ms) (h' : Expands kids ms ls) :
    Expands kids ns ls := by
  induction h with
  | refl => exact h'
  | step hkids _ ih => exact .step hkids (ih h')

theorem append {ns ns' ms' : List α} (h : Expands kids ns ms) (h' : Expands kids ns' ms') :
    Expands kids (ns ++ ns') (ms ++ ms') := by
  induction h with
  | refl ns =>
      induction h' with
      | refl => exact .refl _
      | @step front n children rest ms hkids _ ih =>
          rw [← List.append_assoc]
          refine .step hkids ?_
          rw [List.append_assoc, List.append_assoc, ← List.append_assoc front]
          exact ih
  | @step front n children rest ms hkids _ ih =>
      rw [List.append_assoc, List.cons_append]
      refine .step hkids ?_
      rw [← List.append_assoc]
      exact ih

theorem single {n : α} {children : List α} (hkids : kids n = some children) :
    Expands kids [n] children := by
  have hstep : Expands kids ([] ++ n :: []) children :=
    .step hkids (by rw [List.nil_append, List.append_nil]; exact .refl _)
  exact hstep

/-- Every node of a list is replaced. -/
theorem flatMap {f : α → List α} (h : ∀ n, Expands kids [n] (f n)) (ns : List α) :
    Expands kids ns (ns.flatMap f) := by
  induction ns with
  | nil => exact .refl _
  | cons n ns ih => exact (h n).append ih

end Expands

end Basics

/-! ### Another forest -/

variable {ns leaves : List α} {kids : α → Option (List α)}

/-- **A forest in which every node is replaced by a list of nodes** has the frontier that the leaves
are replaced by. -/
theorem Frontier.substitute (kids' : β → Option (List β)) (σ τ : α → List β) (known : α → Prop)
    (hleaf : ∀ n, known n → kids n = none → Frontier kids' (σ n) (τ n)) (hnode : ∀ n children, known n →
      kids n = some children → (∀ child ∈ children, known child) ∧ Expands kids' (σ n) (children.flatMap
      σ)) (h : Frontier kids ns leaves) (hns : ∀ n ∈ ns, known n) :
    Frontier kids' (ns.flatMap σ) (leaves.flatMap τ) := by
  induction h with
  | nil => exact .nil
  | @leaf n rest leaves hkids _ ih =>
      exact (hleaf n (hns n List.mem_cons_self) hkids).append
        (ih fun m hm => hns m (List.mem_cons_of_mem n hm))
  | @node n children rest leaves hkids _ ih =>
      obtain ⟨hknown, hexpands⟩ := hnode n children (hns n List.mem_cons_self) hkids
      have hall := ih fun m hm => (List.mem_append.mp hm).elim (hknown m) fun hm =>
        hns m (List.mem_cons_of_mem n hm)
      rw [List.flatMap_append] at hall
      exact .of_expands (hexpands.append (.refl _)) hall

/-- Forests that agree on what is reached have the same frontier. -/
theorem Frontier.congr {kids' : α → Option (List α)} (known : α → Prop)
    (hkids : ∀ n, known n → kids' n = kids n)
    (hclosed : ∀ n children, known n → kids n = some children → ∀ child ∈ children, known child)
    (h : Frontier kids ns leaves) (hns : ∀ n ∈ ns, known n) : Frontier kids' ns leaves := by
  have hall := substitute kids' (fun n => [n]) (fun n => [n]) known
    (fun n hn hleaf => .leaf ((hkids n hn).trans hleaf) .nil)
    (fun n children hn hsome => ⟨hclosed n children hn hsome, by
      rw [List.flatMap_singleton']
      exact .single ((hkids n hn).trans hsome)⟩) h hns
  rw [List.flatMap_singleton', List.flatMap_singleton'] at hall
  exact hall

theorem flatMap_keep (p : α → Bool) (l : List α) :
    (l.flatMap fun n => if p n then [n] else []) = l.filter p := by
  induction l with
  | nil => rfl
  | cons n l ih =>
      rw [List.flatMap_cons, ih, List.filter_cons]
      split_ifs
      · rfl
      · rfl

/-- What is gone is left out. -/
theorem Frontier.filter (kids' : α → Option (List α)) (gone : α → Bool) (hclosed : ∀ n children, kids n
      = some children → gone n = true → ∀ child ∈ children, gone child = true)
    (hkids : ∀ n, gone n = false → kids' n = (kids n).map (List.filter fun child => !gone child))
    (h : Frontier kids ns leaves) :
    Frontier kids' (ns.filter fun n => !gone n) (leaves.filter fun n => !gone n) := by
  rw [← flatMap_keep, ← flatMap_keep]
  refine h.substitute kids' _ _ (fun _ => True) (fun n _ hleaf => ?_) (fun n children _ hsome => ?_)
    fun _ _ => trivial
  · cases hn : gone n with
    | true => exact .nil
    | false => exact .leaf (by rw [hkids n hn, hleaf]; rfl) .nil
  · refine ⟨fun _ _ => trivial, ?_⟩
    rw [flatMap_keep]
    cases hn : gone n with
    | true =>
        have hnone : children.filter (fun child => !gone child) = [] := List.filter_eq_nil_iff.mpr
          fun child hchild => by rw [hclosed n children hsome hn child hchild]; exact Bool.false_ne_true
        rw [hnone]
        exact .refl _
    | false => exact .single (by rw [hkids n hn, hsome]; rfl)

/-- The leaves under a node stand together. -/
theorem Frontier.contiguous {r n : α} (hbelow : Below kids r n) (h : Frontier kids [r] leaves) :
    ∃ front mid back, leaves = front ++ mid ++ back ∧ Frontier kids [n] mid := by
  induction hbelow with
  | refl => exact ⟨[], leaves, [], by rw [List.nil_append, List.append_nil], h⟩
  | @tail m n _ hstep ih =>
      obtain ⟨front, mid, back, rfl, hmid⟩ := ih
      obtain ⟨children, hkids, hchild⟩ := hstep
      cases hmid with
      | leaf hnone _ => exact absurd (hnone.symm.trans hkids) nofun
      | node hsome hrest =>
          cases hkids.symm.trans hsome
          obtain ⟨before, after, rfl⟩ := List.append_of_mem hchild
          rw [List.append_nil, ← List.singleton_append] at hrest
          obtain ⟨left, rest, rfl, -, hrest⟩ := hrest.of_append
          obtain ⟨own, right, rfl, hown, -⟩ := hrest.of_append
          exact ⟨front ++ left, own, right ++ back, by simp only [List.append_assoc], hown⟩

/-- In a forest in which every node has one parent, no leaf occurs twice. -/
theorem Frontier.nodup (level : α → ℕ)
    (hlevel : ∀ n children, kids n = some children → ∀ child ∈ children, level child = level n + 1)
    (hkids : ∀ n children, kids n = some children → children.Nodup) (hparent : ∀ n m children others
      child, kids n = some children → kids m = some others → child ∈ children → child ∈ others → n = m)
    (h : Frontier kids ns leaves) (hns : ns.Nodup) (hapart : ∀ a ∈ ns, ∀ b ∈ ns, Below kids a b → a = b) :
    leaves.Nodup := by
  have hdown : ∀ {a b}, Below kids a b → a = b ∨ level a < level b := by
    intro a b hab
    induction hab with
    | refl => exact .inl rfl
    | @tail m b _ hstep ih =>
        obtain ⟨children, hsome, hchild⟩ := hstep
        have hlower := hlevel m children hsome b hchild
        rcases ih with rfl | ih <;> exact .inr (by omega)
  induction h with
  | nil => exact List.nodup_nil
  | @leaf n rest leaves hnone hrest ih =>
      rw [List.nodup_cons] at hns
      refine List.nodup_cons.mpr ⟨fun hmem => ?_, ih hns.2 fun a ha b hb =>
        hapart a (List.mem_cons_of_mem n ha) b (List.mem_cons_of_mem n hb)⟩
      obtain ⟨-, m, hm, hbelow⟩ := hrest.mem_iff.mp hmem
      exact hns.1 (hapart m (List.mem_cons_of_mem n hm) n List.mem_cons_self hbelow ▸ hm)
  | @node n children rest leaves hsome hrest ih =>
      rw [List.nodup_cons] at hns
      have hrest' : ∀ child ∈ children, child ∉ rest := by
        intro child hchild hmem
        have heq := hapart n List.mem_cons_self child (List.mem_cons_of_mem n hmem)
          (.single ⟨children, hsome, hchild⟩)
        exact hns.1 (heq ▸ hmem)
      have hbelow : ∀ a ∈ rest, ∀ child ∈ children, ¬ Below kids a child := by
        intro a ha child hchild hab
        rcases hab.cases_tail with rfl | ⟨m, ham, others, hother, hmem⟩
        · exact hrest' child hchild ha
        · cases hparent n m children others child hsome hother hchild hmem
          exact hns.1 (hapart a (List.mem_cons_of_mem n ha) n List.mem_cons_self ham ▸ ha)
      refine ih (List.nodup_append'.mpr ⟨hkids n children hsome, hns.2, fun child hchild hmem =>
        hrest' child hchild hmem⟩) fun a ha b hb hab => ?_
      rcases List.mem_append.mp ha with ha | ha
      · rcases List.mem_append.mp hb with hb | hb
        · rcases hdown hab with heq | hlt
          · exact heq
          · have hla := hlevel n children hsome a ha
            have hlb := hlevel n children hsome b hb
            omega
        · have heq := hapart n List.mem_cons_self b (List.mem_cons_of_mem n hb)
            (.head ⟨children, hsome, ha⟩ hab)
          exact absurd (heq ▸ hb) hns.1
      · rcases List.mem_append.mp hb with hb | hb
        · exact absurd hab (hbelow a ha b hb)
        · exact hapart a (List.mem_cons_of_mem n ha) b (List.mem_cons_of_mem n hb) hab

/-! ### Weighted forests -/

section Weighted

variable {M : Type*} [Monoid M]

/-- The edges, with their factors multiplied by `q`. -/
def scale (q : M) (edges : List (α × M)) : List (α × M) :=
  edges.map fun edge => (edge.1, q * edge.2)

/-- A node with a weight hands it on to its children. -/
def weigh (kids : α → Option (List (α × M))) (n : α × M) : Option (List (α × M)) :=
  (kids n.1).map (scale n.2)

@[simp] theorem scale_one (edges : List (α × M)) : scale 1 edges = edges := by
  rw [scale]
  simp only [one_mul, List.map_id']

theorem scale_scale (p q : M) (edges : List (α × M)) :
    scale p (scale q edges) = scale (p * q) edges := by
  rw [scale, scale, scale, List.map_map]
  exact List.map_congr_left fun edge _ => by rw [Function.comp_apply, mul_assoc]

variable [DecidableEq α]

/-- An edge to `n` is replaced by those from `n`. -/
def bypass (n : α) (under : List (α × M)) (edge : α × M) : List (α × M) :=
  if edge.1 = n then scale edge.2 under else [edge]

/-- `n` is dissolved: its children are put into its place. -/
def dissolve (n : α) (under : List (α × M)) (kids : α → Option (List (α × M))) (m : α) :
    Option (List (α × M)) :=
  (kids m).map fun edges => edges.flatMap (bypass n under)

theorem scale_flatMap_bypass (q : M) (n : α) (under edges : List (α × M)) :
    scale q (edges.flatMap (bypass n under)) = (scale q edges).flatMap (bypass n under) := by
  rw [scale, scale, List.map_flatMap, List.flatMap_map]
  refine List.flatMap_congr fun edge _ => ?_
  rw [bypass, bypass]
  split_ifs
  · exact scale_scale q edge.2 under
  · rfl

theorem flatMap_bypass_of_notMem {n : α} {under edges : List (α × M)}
    (h : ∀ edge ∈ edges, edge.1 ≠ n) : edges.flatMap (bypass n under) = edges := by
  calc edges.flatMap (bypass n under)
      = edges.flatMap fun edge => [edge] :=
        List.flatMap_congr fun edge hedge => if_neg (h edge hedge)
    _ = edges := List.flatMap_singleton' edges

variable {kids : α → Option (List (α × M))} {n : α} {under : List (α × M)}

theorem notMem_flatMap_bypass (hself : ∀ edge ∈ under, edge.1 ≠ n) {edges : List (α × M)}
    {edge : α × M} (h : edge ∈ edges.flatMap (bypass n under)) : edge.1 ≠ n := by
  obtain ⟨old, -, hmem⟩ := List.mem_flatMap.mp h
  rw [bypass] at hmem
  split_ifs at hmem with hold
  · obtain ⟨lower, hlower, rfl⟩ := List.mem_map.mp hmem
    exact hself lower hlower
  · rw [List.mem_singleton.mp hmem]
    exact hold

/-- **Dissolving a node leaves the frontier as it is.** -/
theorem frontier_dissolve (hn : kids n = some under) (hself : ∀ edge ∈ under, edge.1 ≠ n)
    {ns leaves : List (α × M)} (hns : ∀ m ∈ ns, m.1 ≠ n) :
    Frontier (weigh (dissolve n under kids)) ns leaves ↔ Frontier (weigh kids) ns leaves := by
  constructor
  · intro h
    have hall := Frontier.substitute (weigh kids) (fun m => [m]) (fun m => [m])
      (fun m => m.1 ≠ n) (fun m _ hleaf => ?_) (fun m children _ hsome => ?_) h hns
    · rw [List.flatMap_singleton', List.flatMap_singleton'] at hall
      exact hall
    · rw [weigh, Option.map_eq_none_iff, dissolve, Option.map_eq_none_iff] at hleaf
      exact .leaf (by rw [weigh, hleaf, Option.map_none]) .nil
    · rw [weigh, dissolve, Option.map_map] at hsome
      obtain ⟨edges, hedges, rfl⟩ := Option.map_eq_some_iff.mp hsome
      rw [Function.comp_apply, scale_flatMap_bypass, List.flatMap_singleton']
      refine ⟨fun child => notMem_flatMap_bypass hself, ?_⟩
      -- the node, and then every edge to `n` among its edges
      refine (Expands.single (by rw [weigh, hedges, Option.map_some])).trans
        (.flatMap (fun edge => ?_) _)
      rw [bypass]
      split_ifs with hedge
      · exact .single (by rw [weigh, hedge, hn, Option.map_some])
      · exact .refl _
  · intro h
    have hall := Frontier.substitute (weigh (dissolve n under kids)) (bypass n under)
      (fun m => [m]) (fun _ => True) (fun m _ hleaf => ?_) (fun m children _ hsome => ?_) h
      fun _ _ => trivial
    · rw [flatMap_bypass_of_notMem hns, List.flatMap_singleton'] at hall
      exact hall
    · rw [weigh, Option.map_eq_none_iff] at hleaf
      have hm : m.1 ≠ n := by
        intro heq
        rw [heq, hn] at hleaf
        exact absurd hleaf nofun
      rw [bypass, if_neg hm]
      exact .leaf (by rw [weigh, dissolve, hleaf, Option.map_none, Option.map_none]) .nil
    · obtain ⟨edges, hedges, rfl⟩ := Option.map_eq_some_iff.mp hsome
      refine ⟨fun _ _ => trivial, ?_⟩
      by_cases hm : m.1 = n
      · rw [hm, hn] at hedges
        cases hedges
        rw [bypass, if_pos hm, flatMap_bypass_of_notMem]
        · exact .refl _
        · intro edge hedge
          obtain ⟨lower, hlower, rfl⟩ := List.mem_map.mp hedge
          exact hself lower hlower
      · rw [bypass, if_neg hm, ← scale_flatMap_bypass]
        exact .single (by rw [weigh, dissolve, hedges, Option.map_some, Option.map_some])

/-- A forest that agrees, but for the node, with one in which the node is dissolved. -/
theorem frontier_of_dissolved {kids' : α → Option (List (α × M))} (hn : kids n = some under)
    (hself : ∀ edge ∈ under, edge.1 ≠ n) (hkids : ∀ m, m ≠ n → kids' m = dissolve n under kids m)
    {ns leaves : List (α × M)} (hns : ∀ m ∈ ns, m.1 ≠ n) :
    Frontier (weigh kids') ns leaves ↔ Frontier (weigh kids) ns leaves := by
  rw [← frontier_dissolve hn hself hns]
  have hclosed : ∀ (m : α × M) (children : List (α × M)), m.1 ≠ n →
      weigh (dissolve n under kids) m = some children → ∀ child ∈ children, child.1 ≠ n := by
    intro m children _ hsome child hchild
    rw [weigh, dissolve, Option.map_map] at hsome
    obtain ⟨edges, -, rfl⟩ := Option.map_eq_some_iff.mp hsome
    rw [Function.comp_apply, scale_flatMap_bypass] at hchild
    exact notMem_flatMap_bypass hself hchild
  have hsame : ∀ m : α × M, m.1 ≠ n → weigh kids' m = weigh (dissolve n under kids) m :=
    fun m hm => by rw [weigh, weigh, hkids m.1 hm]
  constructor
  · refine fun h => h.congr (fun m => m.1 ≠ n) (fun m hm => (hsame m hm).symm) ?_ hns
    intro m children hm hsome
    exact hclosed m children hm ((hsame m hm).symm.trans hsome)
  · exact fun h => h.congr (fun m => m.1 ≠ n) hsame hclosed hns

end Weighted

end Forest
