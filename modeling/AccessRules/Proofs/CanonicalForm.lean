import AccessRules.Proofs.Nameless
import AccessRules.Proofs.Pointwise

/-!
# Pruned trees as canonical forms

Pruning takes away what holds no fact and nothing else: a branch stays exactly if there is a fact below it, with its
label, and below it the pruned tree (`branchAt?_prune`). So of all trees that hold the same facts, the
pruned ones are all the same, and pruning gives this one tree (`prune_canonical`).

A union that prunes on its way relies on the tree being pruned already, and on nothing more
(`mergePruned_agrees_iff_pruned`).
-/

namespace AccessRules

namespace RuleTree

variable {t u : RuleTree} {q : Path} {c : Category} {p : Predicate}

/-! ## What pruning keeps -/

/-- Something is left of a tree exactly if it holds some fact. -/
theorem isEmpty_prune_eq_false_iff : t.prune.isEmpty = false ↔ ∃ q c p, t.Holds q c p := by
  constructor
  · intro hne
    obtain ⟨q, c, p, h⟩ := (pruned_prune t).exists_holds hne
    exact ⟨q, c, p, holds_prune.1 h⟩
  · rintro ⟨q, c, p, h⟩
    exact (pruned_prune t).isEmpty_eq_false_of_holds (holds_prune.2 h)

/-- At every place pruning does to a branch what it does to those at the top. -/
theorem branchAt?_prune (t : RuleTree) (q : Path) (e : Edge) :
    t.prune.branchAt? q e = (t.branchAt? q e).bind pruneBranch? := by
  induction q generalizing t with
  | nil => exact branch?_prune t e
  | cons s q ih =>
    rw [branchAt?_cons, branchAt?_cons, branch?_prune]
    cases t.branch? s.edge with
    | none => rfl
    | some b =>
      rw [Option.bind_some, Option.bind_some, ← ih, pruneBranch?]
      -- Below a branch that is cut off, pruning leaves no branch either.
      split
      · next hempty => rw [(pruned_prune b.2).eq_empty hempty, branchAt?_empty, Option.bind_none]
      · rfl

theorem branchAt?_prune_eq_some_iff {e : Edge} {s : Segment} :
    t.prune.branchAt? q e = some (s, u) ↔
      ∃ v, t.branchAt? q e = some (s, v) ∧ (∃ r c p, v.Holds r c p) ∧ u = v.prune := by
  rw [branchAt?_prune, Option.bind_eq_some_iff]
  simp only [pruneBranch?_eq_some, isEmpty_prune_eq_false_iff, Prod.mk.injEq]
  constructor
  · rintro ⟨b, hb, hholds, rfl, rfl⟩
    exact ⟨b.2, hb, hholds, rfl⟩
  · rintro ⟨v, hv, hholds, rfl⟩
    exact ⟨(s, v), hv, hholds, rfl, rfl⟩

theorem size_prune_le (t : RuleTree) : t.prune.size ≤ t.size := by
  refine size_le_of_places fun q h => ?_
  rcases List.eq_nil_or_concat q with rfl | ⟨q, s, rfl⟩
  · rfl
  · rw [List.concat_eq_append] at h ⊢
    rw [get?_concat, branchAt?_prune] at h
    rw [get?_concat]
    cases hb : t.branchAt? q s.edge with
    | none => rw [hb] at h; cases h
    | some b => rfl

/-! ## One pruned tree for the same facts -/

theorem same_holds (h : t.same u = true) : t.Holds q c p ↔ u.Holds q c p := by
  have hq := same_get? h (Path.same_iff.2 (rfl : q.edges = q.edges))
  unfold Holds
  generalize t.get? q = o, u.get? q = o' at hq
  cases hq with
  | none => rfl
  | some hsame =>
    simp only [Option.some.injEq, exists_eq_left', has, (same_iff.1 hsame).1]

/-- Pruned trees are the same exactly if they hold the same facts. -/
theorem same_iff_holds (ht : t.Pruned) (hu : u.Pruned) :
    t.same u = true ↔ ∀ q c p, t.Holds q c p ↔ u.Holds q c p :=
  ⟨fun h _ _ _ => same_holds h, same_of_holds ht hu⟩

/-- Pruning before a union is lost when its result is pruned. -/
theorem same_prune_mergeAt (t : RuleTree) (r : Path) (a : RuleTree) :
    (t.mergeAt r a).prune.same (t.prune.mergeAt r a.prune).prune = true := by
  refine same_of_holds (pruned_prune _) (pruned_prune _) fun q c p => ?_
  rw [holds_prune, holds_prune, holds_mergeAt, holds_mergeAt]
  simp only [holds_prune]

end RuleTree

open RuleTree (mergeRules)

/-- **Union and pruning in one** gives at every path, whatever is added, what a union and then pruning give, labels
included; and this is so for pruned trees alone. -/
theorem mergePruned_agrees_iff_pruned (t : RuleTree) :
    (∀ (p : Path) (a : RuleTree), t.mergePruned p a = (mergeRules (some t) p a).prune) ↔ t.Pruned := by
  constructor
  · intro h
    have htop : t.merge RuleTree.empty.prune = (t.merge .empty).prune := h [] .empty
    rw [RuleTree.prune_eq_self RuleTree.pruned_empty, RuleTree.merge_empty] at htop
    rw [htop]
    exact RuleTree.pruned_prune t
  · intro ht p a
    exact RuleTree.mergePruned_eq_prune ht p a

/-- **Pruning gives the canonical form** of a tree:

* a pruned tree with the same facts, which has a branch exactly where the tree has one with some fact below it, under
  the same label and with the pruned tree below, and so no more nodes;
* the only one up to names, so pruned trees are the same exactly if they hold the same facts;
* it is its own canonical form, and a union has that of the union of the canonical forms. -/
theorem prune_canonical (t : RuleTree) :
    t.prune.Pruned ∧
    (∀ q c p, t.prune.Holds q c p ↔ t.Holds q c p) ∧
    (∀ q e s u, t.prune.branchAt? q e = some (s, u) ↔
      ∃ v, t.branchAt? q e = some (s, v) ∧ (∃ r c p, v.Holds r c p) ∧ u = v.prune) ∧
    t.prune.size ≤ t.size ∧
    (∀ u : RuleTree, u.Pruned → (∀ q c p, u.Holds q c p ↔ t.Holds q c p) → u.same t.prune = true) ∧
    (∀ u v : RuleTree, u.Pruned → v.Pruned →
      (u.same v = true ↔ ∀ q c p, u.Holds q c p ↔ v.Holds q c p)) ∧
    t.prune.prune = t.prune ∧
    ∀ p a, (mergeRules (some t) p a).prune.same (mergeRules (some t.prune) p a.prune).prune = true := by
  have hpruned := RuleTree.pruned_prune t
  refine ⟨hpruned, fun q c p => RuleTree.holds_prune, fun q e s u => RuleTree.branchAt?_prune_eq_some_iff,
    RuleTree.size_prune_le t, ?_, fun u v hu hv => RuleTree.same_iff_holds hu hv, RuleTree.prune_eq_self hpruned,
    RuleTree.same_prune_mergeAt t⟩
  intro u hu hfacts
  refine RuleTree.same_of_holds hu hpruned fun q c p => ?_
  rw [hfacts, RuleTree.holds_prune]

/-- A tree with categories that have no predicate and with a branch of two nodes that hold nothing, and a pruned tree
that holds the same facts, with another name for a capture. -/
theorem prune_canonical_of_hollow :
    let hollow : RuleTree := ⟨.mk (Rules.extend [] .read []) [], .mk (Rules.ordered_nil.extend .read []) .nil nofun⟩
    let leaf := RuleTree.empty.add .read ⟨"p"⟩
    let t := ((hollow.add .write ⟨"q"⟩).attach (.literal "h") (hollow.attach (.literal "i") .empty)).attach
      (.capture "id") (RuleTree.empty.attach (.literal "a") leaf)
    let u := (RuleTree.empty.add .write ⟨"q"⟩).mergeAt [.capture "key", .literal "a"] leaf
    t.size = 5 ∧ t.prune.size = 3 ∧ t.prune.Pruned ∧ u.Pruned ∧ (∀ q c p, u.Holds q c p ↔ t.Holds q c p) ∧
      t.prune.paths = [[], [.capture "id", .literal "a"]] ∧ u.paths = [[], [.capture "key", .literal "a"]] ∧
      u.same t.prune = true ∧ (t.prune.same u = true ↔ ∀ q c p, t.prune.Holds q c p ↔ u.Holds q c p) := by
  intro hollow leaf t u
  have hu : u.Pruned := (RuleTree.pruned_empty.add .write ⟨"q"⟩).mergeAt (RuleTree.pruned_leaf .read ⟨"p"⟩)
    (RuleTree.isEmpty_add .empty .read ⟨"p"⟩) _
  have hlists : u.facts = t.facts := by decide
  have hfacts : ∀ q c p, u.Holds q c p ↔ t.Holds q c p := by
    intro q c p
    rw [← RuleTree.mem_facts_iff, hlists, RuleTree.mem_facts_iff]
  obtain ⟨hpruned, -, -, -, honly, hsame, -, -⟩ := prune_canonical t
  exact ⟨by decide, by decide, hpruned, hu, hfacts, by decide, by decide, honly u hu hfacts,
    hsame t.prune u hpruned hu⟩

end AccessRules
