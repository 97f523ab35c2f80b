import AccessRules.Proofs.Pruning
import Mathlib.Algebra.GroupWithZero.Nat
import Mathlib.Data.List.Perm.Subperm

/-!
# Counting in trees

An entry with a new key is one more entry, wherever the order puts it (`Keyed.alter_perm`). Hence a branch with a new
edge adds to a tree the nodes and the predicates of the tree that it leads to: `RuleTree.size` and
`RuleTree.predicateCount` are additive (`additive_size`, `additive_predicateCount`). In the same way a union with rules
of new categories adds their sets (`Rules.count_merge`).
-/

namespace AccessRules

/-- An entry with a new key is added to those that are there. -/
theorem Keyed.alter_perm {ε κ : Type} [Ord κ] {key : ε → κ} {k : κ} {f : Option ε → Option ε} {e : ε} {l : List ε}
    (hk : find? key k l = none) (hf : f none = some e) : (alter key k f l).Perm (e :: l) := by
  induction l with
  | nil => simp [alter, hf]
  | cons a l ih =>
    have hka : ¬ compare k (key a) = .eq := by
      intro heq
      simp [find?, heq] at hk
    have hl : find? key k l = none := by simpa [find?, hka] using hk
    unfold alter
    split
    · simp [hf]
    · next heq => exact absurd heq hka
    · exact ((ih hl).cons a).trans (.swap e a l)

/-! ## Sets of predicates -/

namespace Predicates

theorem nodup_of_ordered {ps : Predicates} (h : ps.Ordered) : ps.Nodup := by
  refine h.imp fun {p q} hlt heq => ?_
  rw [heq, Std.compare_self] at hlt
  cases hlt

theorem mem_ofList {ps : List Predicate} {p : Predicate} : p ∈ ofList ps ↔ p ∈ ps := by
  simp [ofList, mem_union Keyed.ascending_nil]

/-- The set of a list is no longer than the list. -/
theorem length_ofList_le (ps : List Predicate) : (ofList ps).length ≤ ps.length :=
  ((nodup_of_ordered (ordered_ofList ps)).subperm fun _ hp => mem_ofList.1 hp).length_le

/-- It is as long only if the list repeats nothing. -/
theorem length_ofList_eq_iff {ps : List Predicate} : (ofList ps).length = ps.length ↔ ps.Nodup := by
  have hnodup := nodup_of_ordered (ordered_ofList ps)
  constructor
  · intro hlen
    have hsub : (ofList ps).Subperm ps := hnodup.subperm fun _ hp => mem_ofList.1 hp
    exact (hsub.perm_of_length_le (Nat.le_of_eq hlen.symm)).nodup_iff.1 hnodup
  · intro hps
    exact ((List.perm_ext_iff_of_nodup hnodup hps).2 fun p => mem_ofList).length_eq

end Predicates

/-! ## Rules -/

namespace Rules

theorem count_eq_sum (rules : Rules) : rules.count = (rules.map fun r => r.2.length).sum := by
  induction rules with
  | nil => rfl
  | cons r rest ih => rw [count, ih, List.map_cons, List.sum_cons]

theorem count_extend {rules : Rules} {c : Category} (hc : rules.find? c = none) (ps : List Predicate) :
    (rules.extend c ps).count = rules.count + (Predicates.ofList ps).length := by
  have hperm : (rules.extend c ps).Perm ((c, Predicates.ofList ps) :: rules) :=
    Keyed.alter_perm (Option.map_eq_none_iff.1 hc) rfl
  rw [count_eq_sum, count_eq_sum, (hperm.map _).sum_nat, List.map_cons, List.sum_cons, Nat.add_comm]

/-- Categories that are new to rules are new to them still when another one has been added. -/
theorem find?_extend_eq_none {rules : Rules} {c : Category} {new : Rules} (hc : c ∉ new.map Prod.fst)
    (hnew : ∀ r ∈ new, rules.find? r.1 = none) (ps : List Predicate) :
    ∀ r ∈ new, (rules.extend c ps).find? r.1 = none := by
  intro r hr
  have hne : r.1 ≠ c := by
    rintro rfl
    exact hc (List.mem_map_of_mem hr)
  rw [find?_extend_of_ne hne]
  exact hnew r hr

/-- What a union with rules of distinct new categories finds: what was there, and the sets of the lists. -/
theorem find?_merge_of_nodup {rules : Rules} (h : rules.Ordered) {new : Rules} (hnodup : (new.map Prod.fst).Nodup)
    (hnew : ∀ r ∈ new, rules.find? r.1 = none) {c : Category} {held : Predicates} :
    (rules.merge new).find? c = some held ↔
      rules.find? c = some held ∨ ∃ ps, (c, ps) ∈ new ∧ held = Predicates.ofList ps := by
  induction new generalizing rules with
  | nil => simp [merge]
  | cons r new ih =>
    obtain ⟨hr, hnodup⟩ := List.nodup_cons.1 hnodup
    obtain ⟨hnone, hnew⟩ := List.forall_mem_cons.1 hnew
    have ih := ih (h.extend r.1 r.2) hnodup (find?_extend_eq_none hr hnew r.2)
    refine ih.trans ?_
    by_cases hc : c = r.1
    · subst hc
      rw [find?_extend_self h, hnone]
      have hlater : ∀ ps, (r.1, ps) ∉ new := fun ps hps => hr (List.mem_map.2 ⟨_, hps, rfl⟩)
      simp [hlater, Prod.ext_iff, Predicates.ofList, eq_comm]
    · rw [find?_extend_of_ne hc]
      simp [Prod.ext_iff, hc]

/-- A union with rules of distinct new categories has the predicates of both. -/
theorem count_merge {rules : Rules} {new : Rules} (hnodup : (new.map Prod.fst).Nodup)
    (hnew : ∀ r ∈ new, rules.find? r.1 = none) :
    (rules.merge new).count = rules.count + (new.map fun r => (Predicates.ofList r.2).length).sum := by
  induction new generalizing rules with
  | nil => rfl
  | cons r new ih =>
    obtain ⟨hr, hnodup⟩ := List.nodup_cons.1 hnodup
    obtain ⟨hnone, hnew⟩ := List.forall_mem_cons.1 hnew
    have ih := ih hnodup (find?_extend_eq_none hr hnew r.2)
    refine ih.trans ?_
    rw [count_extend hnone, List.map_cons, List.sum_cons, Nat.add_assoc]

end Rules

/-! ## Nodes -/

namespace Node

theorem sizeBelow_eq_sum (branches : Branches) : sizeBelow branches = (branches.map fun b => b.2.size).sum := by
  induction branches with
  | nil => rfl
  | cons b rest ih => rw [sizeBelow, ih, List.map_cons, List.sum_cons]

theorem predicateCountBelow_eq_sum (branches : Branches) :
    predicateCountBelow branches = (branches.map fun b => b.2.predicateCount).sum := by
  induction branches with
  | nil => rfl
  | cons b rest ih => rw [predicateCountBelow, ih, List.map_cons, List.sum_cons]

end Node

/-! ## Trees -/

namespace RuleTree

/-- A branch with a new edge is added to those that are there. -/
theorem branches_put_perm {t : RuleTree} {s : Segment} (h : t.branch? s.edge = none) (c : RuleTree) :
    (t.put s c).node.branches.Perm ((s, c.node) :: t.node.branches) :=
  Keyed.alter_perm (branch?_eq_iff.1 h) rfl

theorem size_eq_sum (t : RuleTree) : t.size = 1 + (t.node.branches.map fun b => b.2.size).sum := by
  rw [size, Node.size_eq, Node.sizeBelow_eq_sum]

theorem predicateCount_eq_sum (t : RuleTree) :
    t.predicateCount = t.rules.count + (t.node.branches.map fun b => b.2.predicateCount).sum := by
  rw [predicateCount, Node.predicateCount_eq, Node.predicateCountBelow_eq_sum]
  rfl

/-- A branch with a new edge adds what is counted in the tree that it leads to. -/
def Additive (μ : RuleTree → Nat) : Prop :=
  ∀ (t : RuleTree) (s : Segment) (c : RuleTree), t.branch? s.edge = none → μ (t.put s c) = μ t + μ c

theorem additive_size : Additive size := by
  intro t s c h
  have hsum := ((branches_put_perm h c).map fun b => b.2.size).sum_nat
  have hc : Node.size (s, c.node).2 = c.size := rfl
  rw [List.map_cons, List.sum_cons] at hsum
  rw [size_eq_sum, size_eq_sum t]
  omega

theorem additive_predicateCount : Additive predicateCount := by
  intro t s c h
  have hsum := ((branches_put_perm h c).map fun b => b.2.predicateCount).sum_nat
  have hc : Node.predicateCount (s, c.node).2 = c.predicateCount := rfl
  have hrules : (t.put s c).rules = t.rules := rfl
  rw [List.map_cons, List.sum_cons] at hsum
  rw [predicateCount_eq_sum, predicateCount_eq_sum t, hrules]
  omega

end RuleTree

end AccessRules
