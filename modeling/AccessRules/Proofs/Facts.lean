import AccessRules.Proofs.Places
import AccessRules.Proofs.Pruning

/-!
# Facts

A fact is a predicate for a category at a path. `RuleTree.Holds` says which facts a tree holds: a union holds what is
held in either tree (`holds_mergeAt`), and pruning keeps all facts (`holds_prune`). `ofFacts` grows the tree of a list of
facts, one union after the other.

The tree of facts that all lie below one path is the tree of the facts themselves, merged in at that path
(`foldl_declare_below`). No empty branch is left when there are none, which a plain union would leave.
-/

namespace AccessRules

/-- A predicate for a category, at a path. -/
structure Fact where
  path : Path
  category : Category
  predicate : Predicate
  deriving DecidableEq, Repr

/-- The fact seen from further up: its path leads through `p` first. -/
def Fact.below (p : Path) (f : Fact) : Fact := { f with path := p ++ f.path }

namespace Path

theorem same_iff {p q : Path} : p.same q = true ↔ p.edges = q.edges := decide_eq_true_iff

theorem nil_same {q : Path} : same [] q = true ↔ q = [] := same_iff.trans (eq_comm.trans List.map_eq_nil_iff)

theorem not_cons_same_nil (s : Segment) (p : Path) : ¬ same (s :: p) [] = true := fun h => nomatch same_iff.1 h

theorem cons_same {s s' : Segment} {p q : Path} :
    same (s :: p) (s' :: q) = true ↔ s.edge = s'.edge ∧ p.same q = true := by
  rw [same_iff, same_iff]
  exact List.cons_eq_cons

end Path

namespace Rules

theorem has_iff {rules : Rules} {c : Category} {p : Predicate} :
    rules.has c p = true ↔ p ∈ (rules.find? c).getD [] :=
  List.contains_iff_mem

theorem has_merge {rules : Rules} (h : rules.Ordered) {new : Rules} (hn : new.Ordered) (c : Category) (p : Predicate) :
    (rules.merge new).has c p = true ↔ rules.has c p = true ∨ new.has c p = true := by
  rw [has_iff, has_iff, has_iff, getD_find?_merge h hn, Predicates.mem_union (h.getD_find? c)]

theorem has_prune {rules : Rules} (h : rules.Ordered) (c : Category) (p : Predicate) :
    rules.prune.has c p = rules.has c p := by
  rw [has, has, find?_prune h]
  cases rules.find? c with
  | none => rfl
  | some ps => cases ps <;> rfl

theorem has_leaf {c d : Category} {p q : Predicate} : has (add [] c p) d q = true ↔ c = d ∧ p = q := by
  rw [has_iff]
  by_cases hd : d = c
  · subst hd
    have hf : find? (add [] d p) d = some [p] := find?_extend_self ordered_nil d [p]
    rw [hf]
    simp [eq_comm]
  · have hf : find? (add [] c p) d = none := find?_extend_of_ne hd [p]
    rw [hf]
    simp [Ne.symm hd]

end Rules

namespace RuleTree

/-! ## What a tree holds -/

/-- The tree holds the predicate for the category at the end of the path. -/
def Holds (t : RuleTree) (q : Path) (c : Category) (p : Predicate) : Prop := ∃ u, t.get? q = some u ∧ u.has c p = true

variable {c : Category} {p : Predicate}

theorem holds_nil {t : RuleTree} : t.Holds [] c p ↔ t.rules.has c p = true := by
  unfold Holds
  simp only [get?_nil, Option.some.injEq, exists_eq_left']
  rfl

theorem holds_cons {t : RuleTree} {s : Segment} {q : Path} :
    t.Holds (s :: q) c p ↔ ∃ b, t.branch? s.edge = some b ∧ b.2.Holds q c p := by
  unfold Holds
  simp only [get?_cons, Option.bind_eq_some_iff, ← exists_and_right, ← exists_and_left, and_assoc]
  exact exists_comm

theorem not_holds_empty (q : Path) : ¬ empty.Holds q c p := by
  cases q with
  | nil => rw [holds_nil]; exact Bool.false_ne_true
  | cons s q =>
    rw [holds_cons]
    rintro ⟨b, hb, -⟩
    cases hb

/-- A union at the end of a path holds what the tree holds, and behind the path what was added. -/
theorem holds_mergeAt {t a : RuleTree} {q r : Path} :
    (t.mergeAt r a).Holds q c p ↔ t.Holds q c p ∨ ∃ q', q.edges = r.edges ++ q'.edges ∧ a.Holds q' c p := by
  refine exists_get?_mergeAt (P := fun u => u.has c p = true) (fun u v => ?_) fun _ _ => Bool.false_ne_true
  rw [has, rules_merge]
  exact Rules.has_merge u.rules_ordered v.rules_ordered c p

theorem holds_leaf {d : Category} {x : Predicate} {q : Path} :
    (empty.add d x).Holds q c p ↔ q = [] ∧ d = c ∧ x = p := by
  cases q with
  | nil => rw [holds_nil]; exact Rules.has_leaf.trans (and_iff_right rfl).symm
  | cons s q => simp [holds_cons]

theorem Pruned.isEmpty_eq_false_of_holds {t : RuleTree} (ht : t.Pruned) {q : Path} (h : t.Holds q c p) :
    t.isEmpty = false := by
  refine Bool.eq_false_iff.2 fun hempty => ?_
  rw [ht.eq_empty hempty] at h
  exact not_holds_empty q h

/-- Pruning keeps the facts. -/
theorem holds_prune {t : RuleTree} {q : Path} : t.prune.Holds q c p ↔ t.Holds q c p := by
  induction q generalizing t with
  | nil => rw [holds_nil, holds_nil, rules_prune, Rules.has_prune t.rules_ordered]
  | cons s q ih =>
    rw [holds_cons, holds_cons, branch?_prune]
    cases t.branch? s.edge with
    | none => rfl
    | some b =>
      simp only [Option.bind_some, pruneBranch?_eq_some, Option.some.injEq, exists_eq_left']
      constructor
      · rintro ⟨_, ⟨-, rfl⟩, h⟩
        exact ih.1 h
      · intro h
        have hpruned := ih.2 h
        exact ⟨_, ⟨(pruned_prune b.2).isEmpty_eq_false_of_holds hpruned, rfl⟩, hpruned⟩

/-! ## The tree of facts -/

/-- Unite a tree with the tree of one fact. -/
def declare (t : RuleTree) (f : Fact) : RuleTree := mergeRules (some t) f.path (empty.add f.category f.predicate)

/-- The tree of facts, grown in order: of two names for a capture the first one stays. -/
def ofFacts (facts : List Fact) : RuleTree := facts.foldl declare empty

theorem declare_eq (t : RuleTree) (f : Fact) : t.declare f = t.mergeAt f.path (empty.add f.category f.predicate) := rfl

theorem declare_here (t : RuleTree) : t.declare ⟨[], c, p⟩ = t.add c p := (add_eq_merge t c p).symm

theorem isEmpty_declare (t : RuleTree) (f : Fact) : (t.declare f).isEmpty = false :=
  isEmpty_mergeAt (isEmpty_add empty f.category f.predicate) f.path t

theorem Pruned.declare {t : RuleTree} (h : t.Pruned) (f : Fact) : (t.declare f).Pruned :=
  h.mergeAt (pruned_leaf f.category f.predicate) (isEmpty_add empty f.category f.predicate) f.path

theorem Pruned.declareAll {t : RuleTree} (h : t.Pruned) : ∀ facts : List Fact, (facts.foldl RuleTree.declare t).Pruned
  | [] => h
  | f :: facts => Pruned.declareAll (h.declare f) facts

theorem pruned_ofFacts (facts : List Fact) : (ofFacts facts).Pruned := pruned_empty.declareAll facts

/-- A fact below the path of a union is declared in what was added there. -/
theorem declare_below {t a : RuleTree} (ht : t.Pruned) (ha : a.Pruned) (r : Path) (f : Fact) :
    (t.mergePruned r a).declare (f.below r) = t.mergePruned r (a.declare f) := by
  rw [mergePruned_eq_mergeAt ht (ha.declare f) (isEmpty_declare a f)]
  cases hv : a.isEmpty with
  | true =>
    -- Nothing was added yet, and so no path to it was laid.
    rw [ha.eq_empty hv, mergePruned_empty ht]
    exact mergeAt_append t r f.path _
  | false =>
    rw [mergePruned_eq_mergeAt ht ha hv]
    exact mergeAt_mergeAt_append t r f.path a _

/-- Facts below one path are declared by merging in their tree at that path. -/
theorem foldl_declare_below {t : RuleTree} (h : t.Pruned) (r : Path) (facts : List Fact) :
    (facts.map (Fact.below r)).foldl declare t = t.mergePruned r (ofFacts facts) := by
  suffices H : ∀ a : RuleTree, a.Pruned →
      (facts.map (Fact.below r)).foldl declare (t.mergePruned r a) = t.mergePruned r (facts.foldl declare a) by
    have := H empty pruned_empty
    rwa [mergePruned_empty h] at this
  induction facts with
  | nil => exact fun _ _ => rfl
  | cons f facts ih =>
    intro a ha
    rw [List.map_cons, List.foldl_cons, List.foldl_cons, declare_below h ha]
    exact ih _ (ha.declare f)

/-- The tree of facts holds these and no others. -/
theorem holds_ofFacts (facts : List Fact) (q : Path) :
    (ofFacts facts).Holds q c p ↔ ∃ f ∈ facts, f.path.same q = true ∧ f.category = c ∧ f.predicate = p := by
  suffices H : ∀ t : RuleTree, (facts.foldl declare t).Holds q c p ↔
      t.Holds q c p ∨ ∃ f ∈ facts, f.path.same q = true ∧ f.category = c ∧ f.predicate = p by
    exact (H empty).trans (or_iff_right (not_holds_empty q))
  induction facts with
  | nil => simp
  | cons f facts ih =>
    intro t
    have hf : (t.declare f).Holds q c p ↔
        t.Holds q c p ∨ f.path.same q = true ∧ f.category = c ∧ f.predicate = p := by
      rw [declare_eq, holds_mergeAt]
      refine or_congr_right ⟨?_, ?_⟩
      · rintro ⟨q', hq, h⟩
        obtain ⟨rfl, hf⟩ := holds_leaf.1 h
        exact ⟨Path.same_iff.2 (hq.trans (List.append_nil _)).symm, hf⟩
      · rintro ⟨hs, h⟩
        exact ⟨[], ((List.append_nil _).trans (Path.same_iff.1 hs)).symm, holds_leaf.2 ⟨rfl, h⟩⟩
    rw [List.foldl_cons, ih, hf, or_assoc]
    simp only [List.mem_cons, or_and_right, exists_or, exists_eq_left]

end RuleTree

end AccessRules
