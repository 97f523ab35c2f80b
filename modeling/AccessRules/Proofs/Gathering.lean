import AccessRules.Proofs.Counting
import AccessRules.Proofs.Facts
import Mathlib.Data.List.Nodup

/-!
# What stands at the nodes of a tree, listed

`gather f` reads something off the rules of every node and lists it with the edges that lead to the node. An entry is
listed exactly if the node at the end of its path gives it (`mem_gather_iff`), and, where no node gives an entry twice,
nothing is listed twice (`nodup_gather`). Two lists are of use here:

* `places`, one entry for each node, of which there are `size` (`length_places`);
* `facts`, one entry for each predicate that a category has somewhere, of which there are `predicateCount`
  (`length_facts`).

So a tree that leads to more places has more nodes (`size_le_of_places`), and one that holds more facts has more
predicates (`predicateCount_le_of_holds`).
-/

namespace AccessRules

/-- Every list of edges is that of a path. -/
theorem Path.exists_edges : ∀ edges : List Edge, ∃ p : Path, p.edges = edges
  | [] => ⟨[], rfl⟩
  | e :: edges => by
    obtain ⟨p, rfl⟩ := exists_edges edges
    cases e with
    | literal text => exact ⟨.literal text :: p, rfl⟩
    | capture => exact ⟨.capture "" :: p, rfl⟩

variable {α : Type} {f : Rules → List α}

/-! ## Nodes -/

namespace Node

mutual

/-- What `f` reads off the rules of each node, with the edges that lead there. -/
def gather (f : Rules → List α) : Node → List (List Edge × α)
  | mk rules branches => (f rules).map (fun x => ([], x)) ++ gatherBelow f branches

def gatherBelow (f : Rules → List α) : Branches → List (List Edge × α)
  | [] => []
  | (s, c) :: rest => (c.gather f).map (fun x => (s.edge :: x.1, x.2)) ++ gatherBelow f rest

end

theorem gather_eq (c : Node) : c.gather f = (f c.rules).map (fun x => ([], x)) ++ gatherBelow f c.branches := by
  cases c
  rfl

theorem mem_gatherBelow_iff {branches : Branches} {edges : List Edge} {x : α} :
    (edges, x) ∈ gatherBelow f branches ↔
      ∃ b ∈ branches, ∃ rest, edges = b.1.edge :: rest ∧ (rest, x) ∈ b.2.gather f := by
  induction branches with
  | nil => simp [gatherBelow]
  | cons b rest ih => simp [gatherBelow, ih, eq_comm, and_comm]

/-- Entries from different branches differ in their first edge. -/
theorem nodup_gatherBelow {branches : Branches} (h : Keyed.Ascending branchEdge branches)
    (hbelow : ∀ b ∈ branches, (b.2.gather f).Nodup) : (gatherBelow f branches).Nodup := by
  induction branches with
  | nil => exact .nil
  | cons b rest ih =>
    have hprefix : Function.Injective fun x : List Edge × α => (b.1.edge :: x.1, x.2) := by
      rintro ⟨edges, x⟩ ⟨edges', x'⟩ heq
      simpa using heq
    refine List.nodup_append.2 ⟨(hbelow b List.mem_cons_self).map hprefix,
      ih h.tail fun b' hb' => hbelow b' (List.mem_cons_of_mem _ hb'), ?_⟩
    rintro x hx y hy rfl
    obtain ⟨x, -, rfl⟩ := List.mem_map.1 hx
    obtain ⟨b', hb', edges, heq, -⟩ := mem_gatherBelow_iff.1 hy
    have hlt := h.head_lt hb'
    rw [show branchEdge b = branchEdge b' from (List.cons.inj heq).1, Std.compare_self] at hlt
    cases hlt

theorem nodup_gather (hf : ∀ rules : Rules, rules.Ordered → (f rules).Nodup) {c : Node} (h : c.Ordered) :
    (c.gather f).Nodup := by
  induction c using Node.induction with
  | mk rules branches ih =>
    have htop : ((f rules).map fun x => (([], x) : List Edge × α)).Nodup :=
      (hf rules h.rules).map fun x y heq => (Prod.mk.inj heq).2
    refine List.nodup_append.2 ⟨htop, nodup_gatherBelow h.ascending fun b hb => ih b hb (h.subtree b hb), ?_⟩
    rintro x hx y hy rfl
    obtain ⟨x, -, rfl⟩ := List.mem_map.1 hx
    obtain ⟨b, -, rest, heq, -⟩ := mem_gatherBelow_iff.1 hy
    cases heq

/-- A number that grows at every node by what is read there is the number of all that is read. -/
theorem length_gather {μ : Node → Nat} (hμ : ∀ c, μ c = (f c.rules).length + (c.branches.map fun b => μ b.2).sum)
    (c : Node) : (c.gather f).length = μ c := by
  induction c using Node.induction with
  | mk rules branches ih =>
    have hbelow : (gatherBelow f branches).length = (branches.map fun b => μ b.2).sum := by
      induction branches with
      | nil => rfl
      | cons b rest ihRest =>
        obtain ⟨hb, hrest⟩ := List.forall_mem_cons.1 ih
        rw [gatherBelow, List.length_append, List.length_map, hb, ihRest hrest, List.map_cons, List.sum_cons]
    rw [gather, List.length_append, List.length_map, hbelow]
    exact (hμ (mk rules branches)).symm

end Node

/-! ## What rules hold, listed -/

namespace Rules

/-- Every predicate with its category. -/
def listed (rules : Rules) : List (Category × Predicate) := rules.flatMap fun r => r.2.map fun p => (r.1, p)

theorem length_listed (rules : Rules) : rules.listed.length = rules.count := by
  rw [listed, List.length_flatMap, count_eq_sum]
  simp

theorem mem_listed_iff {rules : Rules} (h : rules.Ordered) {c : Category} {p : Predicate} :
    (c, p) ∈ rules.listed ↔ rules.has c p = true := by
  have hlisted : (c, p) ∈ rules.listed ↔ ∃ ps, (c, ps) ∈ rules ∧ p ∈ ps := by
    simp [listed]
  rw [hlisted, has_iff]
  simp only [← find?_eq_some_iff h]
  cases rules.find? c <;> simp

theorem nodup_listed {rules : Rules} (h : rules.Ordered) : rules.listed.Nodup := by
  refine List.nodup_flatMap.2 ⟨fun r hr => ?_, h.categories.imp fun {r r'} hlt => ?_⟩
  · exact (Predicates.nodup_of_ordered (h.sets r hr)).map fun p q heq => (Prod.mk.inj heq).2
  · -- A category stands only once.
    intro x hx hx'
    obtain ⟨p, -, rfl⟩ := List.mem_map.1 hx
    obtain ⟨p', -, heq⟩ := List.mem_map.1 hx'
    rw [(Prod.mk.inj heq).1, Std.compare_self] at hlt
    cases hlt

end Rules

/-! ## Trees -/

namespace RuleTree

/-- What `f` reads off the rules of each node, with the edges that lead there. -/
def gather (f : Rules → List α) (t : RuleTree) : List (List Edge × α) := t.node.gather f

theorem mem_gather_nil {t : RuleTree} {x : α} : ([], x) ∈ t.gather f ↔ x ∈ f t.rules := by
  rw [gather, Node.gather_eq, List.mem_append, Node.mem_gatherBelow_iff]
  simp [rules]

theorem mem_gather_cons {t : RuleTree} {e : Edge} {edges : List Edge} {x : α} :
    (e :: edges, x) ∈ t.gather f ↔ ∃ b, t.branch? e = some b ∧ (edges, x) ∈ b.2.gather f := by
  have hbelow : (e :: edges, x) ∈ t.gather f ↔ ∃ b ∈ t.node.branches, b.1.edge = e ∧ (edges, x) ∈ b.2.gather f := by
    rw [gather, Node.gather_eq, List.mem_append, Node.mem_gatherBelow_iff]
    simp [eq_comm]
  have hbranch : ∀ b, (b ∈ t.node.branches ∧ b.1.edge = e) ↔ (t.branch? e).map bare = some b := by
    intro b
    rw [map_bare_branch?]
    exact (Keyed.find?_eq_some_iff t.ordered.ascending).symm
  rw [hbelow]
  simp only [← and_assoc, hbranch, Option.map_eq_some_iff]
  constructor
  · rintro ⟨_, ⟨b, hb, rfl⟩, hx⟩
    exact ⟨b, hb, hx⟩
  · rintro ⟨b, hb, hx⟩
    exact ⟨_, ⟨b, hb, rfl⟩, hx⟩

/-- **What is listed** at the end of a path is what the node there gives. -/
theorem mem_gather_iff {t : RuleTree} {q : Path} {x : α} :
    (q.edges, x) ∈ t.gather f ↔ ∃ u, t.get? q = some u ∧ x ∈ f u.rules := by
  induction q generalizing t with
  | nil =>
    refine mem_gather_nil.trans ?_
    rw [get?_nil]
    simp
  | cons s q ih =>
    refine mem_gather_cons.trans ?_
    rw [get?_cons]
    cases t.branch? s.edge with
    | none => simp
    | some b =>
      simp only [Option.some.injEq, exists_eq_left', Option.bind_some]
      exact ih

theorem nodup_gather (hf : ∀ rules : Rules, rules.Ordered → (f rules).Nodup) (t : RuleTree) : (t.gather f).Nodup :=
  Node.nodup_gather hf t.ordered

/-- One list is no longer than another one if it repeats nothing and its entries are all in the other one. -/
theorem length_gather_le (hf : ∀ rules : Rules, rules.Ordered → (f rules).Nodup) {t : RuleTree}
    {entries : List (List Edge × α)} (h : ∀ q u x, t.get? q = some u → x ∈ f u.rules → (Path.edges q, x) ∈ entries) :
    (t.gather f).length ≤ entries.length := by
  refine ((nodup_gather hf t).subperm fun ⟨edges, x⟩ hx => ?_).length_le
  obtain ⟨q, rfl⟩ := Path.exists_edges edges
  obtain ⟨u, hu, hx⟩ := mem_gather_iff.1 hx
  exact h q u x hu hx

/-! ### Nodes, listed -/

/-- The places of the nodes. -/
def places (t : RuleTree) : List (List Edge × Unit) := t.gather fun _ => [()]

theorem mem_places_iff {t : RuleTree} {q : Path} : (q.edges, ()) ∈ t.places ↔ (t.get? q).isSome = true := by
  rw [places, mem_gather_iff, Option.isSome_iff_exists]
  simp

theorem length_places (t : RuleTree) : t.places.length = t.size := by
  refine Node.length_gather (fun c => ?_) t.node
  rw [Node.size_eq, Node.sizeBelow_eq_sum]
  rfl

theorem size_le_of_places {t u : RuleTree} (h : ∀ q, (t.get? q).isSome = true → (u.get? q).isSome = true) :
    t.size ≤ u.size := by
  rw [← length_places t, ← length_places u]
  refine length_gather_le (fun _ _ => List.nodup_singleton ()) fun q v x hv _ => ?_
  exact mem_places_iff.2 (h q (by rw [hv]; rfl))

/-! ### Facts, listed -/

/-- The facts that the tree holds. -/
def facts (t : RuleTree) : List (List Edge × Category × Predicate) := t.gather Rules.listed

theorem mem_facts_iff {t : RuleTree} {q : Path} {c : Category} {p : Predicate} :
    (q.edges, c, p) ∈ t.facts ↔ t.Holds q c p := by
  rw [facts, mem_gather_iff]
  exact exists_congr fun u => and_congr_right fun _ => Rules.mem_listed_iff u.rules_ordered

theorem nodup_facts (t : RuleTree) : t.facts.Nodup := nodup_gather (fun _ => Rules.nodup_listed) t

theorem length_facts (t : RuleTree) : t.facts.length = t.predicateCount := by
  refine Node.length_gather (fun c => ?_) t.node
  rw [Node.predicateCount_eq, Node.predicateCountBelow_eq_sum, Rules.length_listed]

/-- A tree has at most as many predicates as a list has entries that names all its facts. -/
theorem predicateCount_le_length {t : RuleTree} {entries : List (List Edge × Category × Predicate)}
    (h : ∀ q c p, t.Holds q c p → (Path.edges q, c, p) ∈ entries) : t.predicateCount ≤ entries.length := by
  rw [← length_facts]
  refine length_gather_le (fun _ => Rules.nodup_listed) fun q u x hu hx => ?_
  exact h q x.1 x.2 ⟨u, hu, (Rules.mem_listed_iff u.rules_ordered).1 hx⟩

theorem predicateCount_le_of_holds {t u : RuleTree} (h : ∀ q c p, t.Holds q c p → u.Holds q c p) :
    t.predicateCount ≤ u.predicateCount := by
  rw [← length_facts u]
  exact predicateCount_le_length fun q c p hp => mem_facts_iff.2 (h q c p hp)

/-- Pruning takes no predicate away. -/
theorem predicateCount_prune (t : RuleTree) : t.prune.predicateCount = t.predicateCount :=
  Nat.le_antisymm (predicateCount_le_of_holds fun _ _ _ => holds_prune.1)
    (predicateCount_le_of_holds fun _ _ _ => holds_prune.2)

end RuleTree

end AccessRules
