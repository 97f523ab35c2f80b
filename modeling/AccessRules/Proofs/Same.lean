import AccessRules.Proofs.Facts
import Mathlib.Data.List.Forall2

/-!
# Trees that hold the same facts

`same` compares trees as they stand, rules with rules and branches with branches, only not the names of captures. What
stands in a pruned tree stands there for a fact that it holds (`Pruned.exists_holds`). So the facts determine a pruned
tree but for these names: pruned trees that hold the same facts are the same (`same_of_holds`).
-/

namespace AccessRules

namespace Keyed

variable {ε κ : Type} [Ord κ] [Std.TransOrd κ] [Std.LawfulEqOrd κ] {key : ε → κ}

omit [Std.TransOrd κ] [Std.LawfulEqOrd κ] in
theorem ascending_keys {l : List ε} (h : Ascending key l) : Ascending id (l.map key) := List.pairwise_map.2 h

omit [Std.TransOrd κ] in
theorem mem_keys_iff {l : List ε} (h : Ascending key l) {k : κ} : k ∈ l.map key ↔ (find? key k l).isSome = true := by
  simp only [List.mem_map, Option.isSome_iff_exists, find?_eq_some_iff h]

/-- Ascending lists are related entry by entry if what is found in them for each key is. -/
theorem forall₂_of_find? {R : ε → ε → Prop} {l l' : List ε} (h : Ascending key l) (h' : Ascending key l')
    (hrel : ∀ k, Option.Rel R (find? key k l) (find? key k l')) : List.Forall₂ R l l' := by
  have hmem : ∀ k, k ∈ l.map key ↔ k ∈ l'.map key := by
    intro k
    have hk := hrel k
    rw [mem_keys_iff h, mem_keys_iff h']
    generalize find? key k l = o, find? key k l' = o' at hk ⊢
    cases hk with
    | none => rfl
    | some => rfl
  have hkeys : l.map key = l'.map key := by
    apply ext (ascending_keys h) (ascending_keys h')
    intro k
    apply Option.ext
    intro k'
    rw [find?_eq_some_iff (ascending_keys h), find?_eq_some_iff (ascending_keys h'), hmem]
  have hlen : l.length = l'.length := by simpa using congrArg List.length hkeys
  rw [List.forall₂_iff_get]
  refine ⟨hlen, fun i hi hi' => ?_⟩
  have hkey : key (l.get ⟨i, hi⟩) = key (l'.get ⟨i, hi'⟩) := by
    simpa [hi, hi'] using congrArg (fun keys => keys[i]?) hkeys
  have hfound := hrel (key (l.get ⟨i, hi⟩))
  rw [(find?_eq_some_iff h).2 ⟨List.get_mem l ⟨i, hi⟩, rfl⟩,
    (find?_eq_some_iff h').2 ⟨List.get_mem l' ⟨i, hi'⟩, hkey.symm⟩] at hfound
  cases hfound with
  | some hR => exact hR

end Keyed

/-! ## Sameness by rules and branches -/

theorem Node.sameBelow_of_forall₂ {branches branches' : Branches}
    (h : List.Forall₂ (fun b b' => b.1.edge = b'.1.edge ∧ b.2.same b'.2 = true) branches branches') :
    sameBelow branches branches' = true := by
  induction h with
  | nil => rfl
  | cons hb _ ih => simp [sameBelow, hb, ih]

namespace RuleTree

variable {t u : RuleTree}

/-- Trees are the same if their rules are equal and their branches lead to trees that are the same. -/
theorem same_of_branches (hrules : t.rules = u.rules)
    (hbranches : ∀ e, Option.Rel (fun b b' => b.2.same b'.2 = true) (t.branch? e) (u.branch? e)) :
    t.same u = true := by
  have hrel : ∀ e, Option.Rel (fun b b' => b.1.edge = b'.1.edge ∧ b.2.same b'.2 = true)
      (Keyed.find? Node.branchEdge e t.node.branches) (Keyed.find? Node.branchEdge e u.node.branches) := by
    intro e
    rw [find?_branches, find?_branches]
    have he := hbranches e
    cases hb : t.branch? e <;> cases hb' : u.branch? e <;> rw [hb, hb'] at he <;> cases he
    · exact .none
    · next hsame => exact .some ⟨(edge_of_branch? hb).trans (edge_of_branch? hb').symm, hsame⟩
  have hbelow := Node.sameBelow_of_forall₂
    (Keyed.forall₂_of_find? t.ordered.ascending u.ordered.ascending hrel)
  unfold same
  rw [← Node.mk_eta t.node, ← Node.mk_eta u.node, Node.same, hbelow, Bool.and_true]
  exact decide_eq_true hrules

/-! ## Facts determine pruned trees -/

/-- A pruned tree that is not empty holds some fact. -/
theorem Pruned.exists_holds (h : t.Pruned) (hne : t.isEmpty = false) : ∃ q c p, t.Holds q c p := by
  induction h with
  | @mk t hrules hnonempty hsub ih =>
    by_cases hv : t.rules.isVoid = true
    · -- There is a branch, and a fact below it.
      have hbranch : ∃ e b, t.branch? e = some b := by
        by_contra hnone
        simp only [not_exists] at hnone
        have hempty := isEmpty_iff.2 ⟨hv, fun e => Option.eq_none_iff_forall_ne_some.2 (hnone e)⟩
        rw [hne] at hempty
        cases hempty
      obtain ⟨e, b, hb⟩ := hbranch
      obtain ⟨q, c, p, hp⟩ := ih e b hb (hnonempty e b hb)
      obtain rfl := edge_of_branch? hb
      exact ⟨b.1 :: q, c, p, holds_cons.2 ⟨b, hb, hp⟩⟩
    · rw [Rules.isVoid_iff] at hv
      simp only [not_forall] at hv
      obtain ⟨⟨c, ps⟩, hr, hps⟩ := hv
      obtain ⟨p, rest, rfl⟩ := List.exists_cons_of_ne_nil hps
      refine ⟨[], c, p, holds_nil.2 (Rules.has_iff.2 ?_)⟩
      rw [(Rules.find?_eq_some_iff t.rules_ordered).2 hr]
      exact List.mem_cons_self

/-- The rules of a pruned tree are determined by the facts at its top. -/
theorem Pruned.rules_eq (ht : t.Pruned) (hu : u.Pruned) (h : ∀ c p, t.Holds [] c p ↔ u.Holds [] c p) :
    t.rules = u.rules := by
  refine Rules.ext t.rules_ordered u.rules_ordered fun c => ?_
  have hsets : (t.rules.find? c).getD [] = (u.rules.find? c).getD [] := by
    apply Predicates.ext (t.rules_ordered.getD_find? c) (u.rules_ordered.getD_find? c)
    intro p
    rw [← Rules.has_iff, ← Rules.has_iff, ← holds_nil, ← holds_nil]
    exact h c p
  -- No category has an empty set, so a set tells whether the category is there.
  have hne : ∀ {v : RuleTree}, v.Pruned → v.rules.find? c ≠ some [] := by
    intro v hv hnil
    exact hv.rules _ ((Rules.find?_eq_some_iff v.rules_ordered).1 hnil) rfl
  cases hc : t.rules.find? c with
  | none =>
    cases hc' : u.rules.find? c with
    | none => rfl
    | some qs =>
      rw [hc, hc', Option.getD_none, Option.getD_some] at hsets
      rw [← hsets] at hc'
      exact absurd hc' (hne hu)
  | some ps =>
    cases hc' : u.rules.find? c with
    | none =>
      rw [hc, hc', Option.getD_none, Option.getD_some] at hsets
      rw [hsets] at hc
      exact absurd hc (hne ht)
    | some qs =>
      rw [hc, hc'] at hsets
      exact congrArg some hsets

/-- A branch of a pruned tree is one of every tree that holds the same facts. -/
theorem Pruned.exists_branch (ht : t.Pruned) (h : ∀ q c p, t.Holds q c p → u.Holds q c p) {e : Edge}
    {b : Segment × RuleTree} (hb : t.branch? e = some b) : ∃ b', u.branch? e = some b' := by
  obtain ⟨q, c, p, hp⟩ := (ht.subtree hb).exists_holds (ht.nonempty hb)
  obtain rfl := edge_of_branch? hb
  obtain ⟨b', hb', -⟩ := holds_cons.1 (h (b.1 :: q) c p (holds_cons.2 ⟨b, hb, hp⟩))
  exact ⟨b', hb'⟩

/-- **Pruned trees that hold the same facts are the same** up to the names of captures. -/
theorem same_of_holds (ht : t.Pruned) (hu : u.Pruned) (h : ∀ q c p, t.Holds q c p ↔ u.Holds q c p) :
    t.same u = true := by
  induction t using RuleTree.induction generalizing u with
  | step t ih =>
    refine same_of_branches (ht.rules_eq hu (h [])) fun e => ?_
    cases hb : t.branch? e with
    | none =>
      cases hb' : u.branch? e with
      | none => exact .none
      | some b' =>
        obtain ⟨b, hbt⟩ := hu.exists_branch (fun q c p => (h q c p).2) hb'
        rw [hb] at hbt
        cases hbt
    | some b =>
      obtain ⟨b', hb'⟩ := ht.exists_branch (fun q c p => (h q c p).1) hb
      obtain rfl := edge_of_branch? hb
      rw [hb']
      refine .some (ih _ b hb (ht.subtree hb) (hu.subtree hb') fun q c p => ?_)
      have hq := h (b.1 :: q) c p
      rw [holds_cons, holds_cons] at hq
      simpa [hb, hb'] using hq

end RuleTree

end AccessRules
