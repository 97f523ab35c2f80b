import AccessRules.Category
import AccessRules.Predicate

/-!
# The rules of one place

For each category that has been declared, a set of predicates. The categories are kept in their order and each occurs
at most once. A category may be present with an empty set; pruning drops it.
-/

namespace AccessRules

/-- Sets of predicates by category, ascending by category when built by the operations here. -/
abbrev Rules := List (Category × Predicates)

namespace Rules

/-- The order in which rules are kept: categories ascend, and each set is ordered. -/
structure Ordered (rules : Rules) : Prop where
  categories : Keyed.Ascending Prod.fst rules
  sets : ∀ r ∈ rules, r.2.Ordered

/-- The set declared for a category. -/
def find? (rules : Rules) (c : Category) : Option Predicates := (Keyed.find? Prod.fst c rules).map Prod.snd

/-- Add predicates to the set of a category, which is declared by this if it was not. -/
def extend (rules : Rules) (c : Category) (ps : List Predicate) : Rules :=
  Keyed.alter Prod.fst c (fun old => some (c, ((old.map Prod.snd).getD []).union ps)) rules

/-- Add one predicate. -/
def add (rules : Rules) (c : Category) (p : Predicate) : Rules := rules.extend c [p]

/-- Does the category have this predicate? -/
def has (rules : Rules) (c : Category) (p : Predicate) : Bool := ((rules.find? c).getD []).contains p

/-- Add all rules of `new`, category by category. -/
def merge (rules new : Rules) : Rules := new.foldl (fun acc r => acc.extend r.1 r.2) rules

/-- Drop the categories whose set is empty. -/
def prune (rules : Rules) : Rules := rules.filter fun r => !r.2.isEmpty

/-- No category has a predicate. -/
def isVoid (rules : Rules) : Bool := rules.all fun r => r.2.isEmpty

/-- The number of predicates over all categories. -/
def count : Rules → Nat
  | [] => 0
  | r :: rest => r.2.length + count rest

/-! ## The order is kept -/

theorem ordered_nil : Ordered [] := ⟨.nil, fun _ h => nomatch h⟩

theorem keepsKey_extend (c : Category) (ps : List Predicate) :
    Keyed.KeepsKey Prod.fst c fun old : Option (Category × Predicates) =>
      some (c, ((old.map Prod.snd).getD []).union ps) := by
  intro _ _ a ha
  cases ha; rfl

theorem Ordered.find? {rules : Rules} (h : rules.Ordered) {c : Category} {ps : Predicates}
    (hf : rules.find? c = some ps) : ps.Ordered := by
  obtain ⟨r, hr, rfl⟩ := Option.map_eq_some_iff.1 hf
  exact h.sets _ (Keyed.mem_of_find? hr)

theorem Ordered.extend {rules : Rules} (h : rules.Ordered) (c : Category) (ps : List Predicate) :
    (rules.extend c ps).Ordered := by
  have hasc := Keyed.ascending_alter (keepsKey_extend c ps) h.categories
  refine ⟨hasc, fun r hr => ?_⟩
  have hr := (Keyed.find?_eq_some_iff hasc).2 ⟨hr, rfl⟩
  by_cases hc : r.1 = c
  · rw [hc, Keyed.find?_alter_self (keepsKey_extend c ps) h.categories] at hr
    cases hr
    refine Predicates.ordered_union ?_ ps
    cases hf : Keyed.find? Prod.fst c rules with
    | none => exact Keyed.ascending_nil
    | some old => exact h.sets _ (Keyed.mem_of_find? hf)
  · rw [Keyed.find?_alter_of_ne (keepsKey_extend c ps) hc] at hr
    exact h.sets _ (Keyed.mem_of_find? hr)

theorem Ordered.add {rules : Rules} (h : rules.Ordered) (c : Category) (p : Predicate) : (rules.add c p).Ordered :=
  h.extend c [p]

theorem Ordered.merge {rules : Rules} (h : rules.Ordered) : ∀ new : Rules, (rules.merge new).Ordered
  | [] => h
  | r :: new => Ordered.merge (h.extend r.1 r.2) new

theorem Ordered.prune {rules : Rules} (h : rules.Ordered) : rules.prune.Ordered :=
  ⟨h.categories.sublist List.filter_sublist, fun r hr => h.sets r ((List.mem_filter.1 hr).1)⟩

end Rules

end AccessRules
