import AccessRules.Proofs.Nameless

/-!
# The laws of unions

Trees are united as sets are: the order in which they are united, and uniting one of them again, does not matter. With
the names of captures taken in, unions are associative and idempotent, and a path can be walked in two parts. In another
order a union may keep the name of another tree, so unions commute only up to names: two of them (`same_merge_comm`),
and then two at the ends of any two paths, one of which may lead on from the other (`same_mergeAt_comm`).
-/

namespace AccessRules

namespace RuleTree

/-- Unions commute up to names. -/
theorem same_merge_comm (t a : RuleTree) : (t.merge a).same (a.merge t) = true := by
  induction t using RuleTree.induction generalizing a with
  | step t ih =>
    refine same_iff.2 ⟨?_, fun e => ?_⟩
    · rw [rules_merge, rules_merge]
      exact Rules.merge_comm t.rules_ordered a.rules_ordered
    · rw [branch?_merge, branch?_merge]
      cases hb : t.branch? e with
      | none =>
        rw [Option.merge_none_left, Option.merge_none_right]
        cases a.branch? e with
        | none => exact .none
        | some b' => exact .some (same_refl b'.2)
      | some b =>
        cases a.branch? e with
        | none => exact .some (same_refl b.2)
        | some b' => exact .some (ih e b hb b'.2)

/-- Uniting a tree once more at the same path changes nothing. -/
theorem mergeAt_again (t : RuleTree) (p : Path) (a : RuleTree) : (t.mergeAt p a).mergeAt p a = t.mergeAt p a := by
  rw [mergeAt_mergeAt, merge_self]

/-- Unions at the ends of two paths commute up to names, however the paths overlap. -/
theorem same_mergeAt_comm (t : RuleTree) (p q : Path) (a b : RuleTree) :
    ((t.mergeAt p a).mergeAt q b).same ((t.mergeAt q b).mergeAt p a) = true := by
  have hunion : ∀ (p q : Path) (a b : RuleTree),
      (t.mergeAt p a).mergeAt q b = t.merge ((empty.mergeAt p a).merge (empty.mergeAt q b)) := by
    intro p q a b
    rw [mergeAt_eq_merge (t.mergeAt p a), mergeAt_eq_merge t, merge_assoc]
  rw [hunion p q a b, hunion q p b a]
  exact same_merge (same_refl t) (same_merge_comm _ _)

end RuleTree

open RuleTree (mergeRules)

/-- **The laws of unions.** With all names, unions are associative and idempotent, the same union at the same path
changes nothing when it is done again, and a path is walked in two parts; up to names, unions commute, and so do unions
at the ends of any two paths. -/
theorem union_laws :
    (∀ t a b : RuleTree, (t.merge a).merge b = t.merge (a.merge b)) ∧
    (∀ t : RuleTree, t.merge t = t) ∧
    (∀ t a : RuleTree, (t.merge a).same (a.merge t) = true) ∧
    (∀ target p a, mergeRules (some (mergeRules target p a)) p a = mergeRules target p a) ∧
    (∀ target p q a, mergeRules target (p ++ q) a = mergeRules target p (mergeRules none q a)) ∧
    ∀ target p q a b,
      (mergeRules (some (mergeRules target p a)) q b).same (mergeRules (some (mergeRules target q b)) p a) = true := by
  refine ⟨RuleTree.merge_assoc, RuleTree.merge_self, RuleTree.same_merge_comm, ?_, ?_, ?_⟩
  · intro target p a
    exact RuleTree.mergeAt_again (target.getD .empty) p a
  · intro target p q a
    exact RuleTree.mergeAt_append (target.getD .empty) p q a
  · intro target p q a b
    exact RuleTree.same_mergeAt_comm (target.getD .empty) p q a b

/-- Names tell the order of a union. -/
example :
    let named (name : String) : RuleTree := RuleTree.empty.attach (.capture name) (.add .empty .read ⟨"p"⟩)
    ((named "x").merge (named "y")).paths = [[.capture "x"]] ∧
      ((named "y").merge (named "x")).paths = [[.capture "y"]] := by
  decide

end AccessRules
