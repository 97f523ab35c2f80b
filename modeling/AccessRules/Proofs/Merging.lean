import AccessRules.Proofs.Branches

/-!
# The algebra of unions

`RuleTree.merge` is associative and idempotent with the empty tree as its unit, labels included: of all trees in a union
the first one that has an edge labels it. A union at the end of a path is a union with a tree that has nothing but that
path above (`mergeAt_eq_merge`), so two unions at one path are one (`mergeAt_mergeAt`), and a path can be walked in two
parts (`mergeAt_append`).
-/

namespace AccessRules.RuleTree

@[simp] theorem merge_empty (t : RuleTree) : t.merge empty = t := by
  refine ext_branches (rules_merge t empty) fun e => ?_
  rw [branch?_merge, branch?_empty, Option.merge_none_right]

theorem merge_assoc (t a b : RuleTree) : (t.merge a).merge b = t.merge (a.merge b) := by
  induction b using RuleTree.induction generalizing t a with
  | step b ih =>
    refine ext_branches ?_ fun e => ?_
    · simp only [rules_merge]
      exact Rules.merge_assoc t.rules_ordered a.rules_ordered b.rules_ordered
    · simp only [branch?_merge]
      cases hb : b.branch? e with
      | none => rw [Option.merge_none_right, Option.merge_none_right]
      | some y =>
        cases a.branch? e with
        | none => rw [Option.merge_none_right, Option.merge_none_left]
        | some x =>
          cases t.branch? e with
          | none => rfl
          | some z => exact congrArg some (Prod.ext rfl (ih e y hb z.2 x.2))

theorem merge_self (t : RuleTree) : t.merge t = t := by
  induction t using RuleTree.induction with
  | step t ih =>
    refine ext_branches ((rules_merge t t).trans (Rules.merge_self t.rules_ordered)) fun e => ?_
    rw [branch?_merge]
    cases hb : t.branch? e with
    | none => rfl
    | some b => exact congrArg some (Prod.ext rfl (ih e b hb))

/-! ## Unions at the end of a path -/

theorem mergeAt_eq_merge (t : RuleTree) (p : Path) (a : RuleTree) : t.mergeAt p a = t.merge (empty.mergeAt p a) := by
  induction p generalizing t with
  | nil => rw [mergeAt_nil, mergeAt_nil, empty_merge]
  | cons s p ih =>
    refine ext_branches ?_ fun e => ?_
    · rw [rules_merge, rules_mergeAt_cons, rules_mergeAt_cons, rules_empty, Rules.merge_nil]
    · rw [branch?_merge]
      by_cases he : e = s.edge
      · subst he
        rw [branch?_mergeAt_self, branch?_mergeAt_self, branch?_empty]
        cases t.branch? s.edge with
        | none => rfl
        | some b => exact congrArg some (Prod.ext rfl (ih b.2))
      · rw [branch?_mergeAt_of_ne t a he, branch?_mergeAt_of_ne empty a he, branch?_empty, Option.merge_none_right]

/-- Two unions at one path are one union there. -/
theorem mergeAt_mergeAt (t : RuleTree) (p : Path) (a b : RuleTree) :
    (t.mergeAt p a).mergeAt p b = t.mergeAt p (a.merge b) := by
  induction p generalizing t with
  | nil => exact merge_assoc t a b
  | cons s p ih =>
    refine ext_branches rfl fun e => ?_
    by_cases he : e = s.edge
    · subst he
      rw [branch?_mergeAt_self, branch?_mergeAt_self, branch?_mergeAt_self]
      exact congrArg some (Prod.ext rfl (ih _))
    · rw [branch?_mergeAt_of_ne _ b he, branch?_mergeAt_of_ne t a he, branch?_mergeAt_of_ne t _ he]

/-- A path is walked in two parts. -/
theorem mergeAt_append (t : RuleTree) (p q : Path) (a : RuleTree) :
    t.mergeAt (p ++ q) a = t.mergeAt p (empty.mergeAt q a) := by
  induction p generalizing t with
  | nil => exact mergeAt_eq_merge t q a
  | cons s p ih =>
    rw [List.cons_append]
    refine ext_branches rfl fun e => ?_
    by_cases he : e = s.edge
    · subst he
      rw [branch?_mergeAt_self, branch?_mergeAt_self, ih]
    · rw [branch?_mergeAt_of_ne t a he, branch?_mergeAt_of_ne t _ he]

/-- A union further down the path of an earlier one goes into what was added there. -/
theorem mergeAt_mergeAt_append (t : RuleTree) (p q : Path) (a b : RuleTree) :
    (t.mergeAt p a).mergeAt (p ++ q) b = t.mergeAt p (a.mergeAt q b) := by
  rw [mergeAt_append, mergeAt_mergeAt, ← mergeAt_eq_merge]

/-- Adding a predicate is a union with the tree of that predicate alone. -/
theorem add_eq_merge (t : RuleTree) (c : Category) (p : Predicate) : t.add c p = t.merge (empty.add c p) := by
  refine ext_branches ?_ fun e => ?_
  · rw [rules_merge, rules_add, rules_add, rules_empty, Rules.add_eq_merge]
  · rw [branch?_merge, branch?_add, branch?_add, branch?_empty, Option.merge_none_right]

end AccessRules.RuleTree
