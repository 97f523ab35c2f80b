import AccessRules.Proofs.Gathering

/-!
# Unions, place by place

What a union at the end of a path has at each place (`mergeRules_pointwise`): the facts and the categories, the nodes,
and the labels of the edges. The facts can be counted, so it follows how many predicates there are: no fewer than in
either tree (`predicateCount_le_mergeAt`), and no more than in both (`predicateCount_mergeAt_le`).
-/

namespace AccessRules

namespace RuleTree

variable {t a : RuleTree} {p q : Path} {c : Category}

/-! ## Categories -/

/-- The category is declared at the end of the path, be it with no predicate. -/
def Declares (t : RuleTree) (q : Path) (c : Category) : Prop :=
  ∃ u, t.get? q = some u ∧ (u.predicates? c).isSome = true

theorem declares_mergeAt :
    (t.mergeAt p a).Declares q c ↔ t.Declares q c ∨ ∃ r, q.edges = p.edges ++ r.edges ∧ a.Declares r c := by
  refine exists_get?_mergeAt (P := fun u => (u.predicates? c).isSome = true) (fun u v => ?_) fun _ _ =>
    Bool.false_ne_true
  rw [predicates?, rules_merge, Rules.find?_merge u.rules_ordered v.rules_ordered, Option.isSome_merge,
    Bool.or_eq_true]
  rfl

/-! ## How many predicates there are -/

/-- The facts of what is added, seen from above the path. -/
def factsBelow (p : Path) (a : RuleTree) : List (List Edge × Category × Predicate) :=
  a.facts.map fun k => (p.edges ++ k.1, k.2)

theorem length_factsBelow (p : Path) (a : RuleTree) : (a.factsBelow p).length = a.predicateCount := by
  rw [factsBelow, List.length_map, length_facts]

theorem nodup_factsBelow (p : Path) (a : RuleTree) : (a.factsBelow p).Nodup := by
  refine a.nodup_facts.map fun k k' heq => ?_
  obtain ⟨hedges, hfact⟩ := Prod.mk.inj heq
  exact Prod.ext (List.append_cancel_left hedges) hfact

theorem mem_factsBelow_iff {edges : List Edge} {x : Predicate} :
    (edges, c, x) ∈ a.factsBelow p ↔ ∃ r, edges = p.edges ++ r.edges ∧ a.Holds r c x := by
  rw [factsBelow, List.mem_map]
  constructor
  · rintro ⟨⟨rest, _⟩, hk, heq⟩
    cases heq
    obtain ⟨r, rfl⟩ := Path.exists_edges rest
    exact ⟨r, rfl, mem_facts_iff.1 hk⟩
  · rintro ⟨r, rfl, h⟩
    exact ⟨_, mem_facts_iff.2 h, rfl⟩

theorem predicateCount_le_mergeAt (t : RuleTree) (p : Path) (a : RuleTree) :
    a.predicateCount ≤ (t.mergeAt p a).predicateCount := by
  rw [← length_factsBelow p a, ← length_facts]
  refine ((nodup_factsBelow p a).subperm fun ⟨edges, c, x⟩ hk => ?_).length_le
  obtain ⟨q, rfl⟩ := Path.exists_edges edges
  exact mem_facts_iff.2 (holds_mergeAt.2 (.inr (mem_factsBelow_iff.1 hk)))

theorem predicateCount_mergeAt_le (t : RuleTree) (p : Path) (a : RuleTree) :
    (t.mergeAt p a).predicateCount ≤ t.predicateCount + a.predicateCount := by
  rw [← length_facts t, ← length_factsBelow p a, ← List.length_append]
  refine predicateCount_le_length fun q c x h => List.mem_append.2 ?_
  exact (holds_mergeAt.1 h).imp mem_facts_iff.2 mem_factsBelow_iff.2

end RuleTree

open RuleTree (mergeRules)

/-- **Unions place by place**: in a union at the end of a path `p`, at the end of any path `q`,

* there are the predicates that the target has there, and where `q` leads on from the end of `p` along some `r`, those
  at the end of `r` in what is added; and so it is with the categories that are declared;
* there is a node where the target has one, where `q` ends on the way of `p`, and where there is one at the end of `r`
  in what is added;
* an edge is labelled as in the target, else as in `p`, else as in what is added.

So there are no fewer predicates than in either tree, and no more than in both. -/
theorem mergeRules_pointwise (target : Option RuleTree) (p : Path) (a : RuleTree) :
    let t := target.getD .empty
    let u := mergeRules target p a
    (∀ (q : Path) (c : Category) (x : Predicate),
      u.Holds q c x ↔ t.Holds q c x ∨ ∃ r : Path, q.edges = p.edges ++ r.edges ∧ a.Holds r c x) ∧
    (∀ (q : Path) (c : Category),
      u.Declares q c ↔ t.Declares q c ∨ ∃ r : Path, q.edges = p.edges ++ r.edges ∧ a.Declares r c) ∧
    (∀ q : Path, (u.get? q).isSome = true ↔
      (t.get? q).isSome = true ∨ q.edges <+: p.edges ∨
        ∃ r : Path, q.edges = p.edges ++ r.edges ∧ (a.get? r).isSome = true) ∧
    (∀ (q : Path) (e : Edge) (s : Segment), u.labelAt? q e = some s ↔
      t.labelAt? q e = some s ∨ t.labelAt? q e = none ∧
        ((∃ p₁ p₂ : Path, p = p₁ ++ s :: p₂ ∧ q.edges = p₁.edges ∧ e = s.edge) ∨
          ∃ r : Path, q.edges = p.edges ++ r.edges ∧ a.labelAt? r e = some s)) ∧
    t.predicateCount ≤ u.predicateCount ∧ a.predicateCount ≤ u.predicateCount ∧
      u.predicateCount ≤ t.predicateCount + a.predicateCount := by
  intro t u
  refine ⟨fun q c x => RuleTree.holds_mergeAt, fun q c => RuleTree.declares_mergeAt,
    fun q => RuleTree.isSome_get?_mergeAt, fun q e s => RuleTree.labelAt?_mergeAt, ?_,
    RuleTree.predicateCount_le_mergeAt t p a, RuleTree.predicateCount_mergeAt_le t p a⟩
  apply RuleTree.predicateCount_le_of_holds
  intro q c x h
  exact RuleTree.holds_mergeAt.2 (.inl h)

/-- Three captures are named in turn by the target, by the path and by what is added. -/
example :
    let named (name : String) : RuleTree := RuleTree.empty.attach (.capture name) (.add .empty .read ⟨"p"⟩)
    (mergeRules (some (named "x")) [.capture "y", .capture "y"] (named "z")).paths =
      [[.capture "x"], [.capture "x", .capture "y", .capture "z"]] := by
  decide

end AccessRules
