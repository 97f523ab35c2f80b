import AccessRules.Proofs.Merging

/-!
# Pruned trees

A tree is pruned when no category has an empty set and no branch leads to an empty tree, here and below. Pruning gives
such a tree (`pruned_prune`) and leaves one as it is (`prune_eq_self`); a union of pruned trees is pruned.

`mergePruned` into a pruned tree is the union and then pruning (`mergePruned_eq_prune`), though it visits nothing beside
the path and what is added.
-/

namespace AccessRules

/-! ## Rules -/

namespace Rules

theorem isVoid_iff {rules : Rules} : rules.isVoid = true ↔ ∀ r ∈ rules, r.2 = [] := by
  unfold isVoid
  rw [List.all_eq_true]
  exact forall₂_congr fun r _ => List.isEmpty_iff

theorem isVoid_eq_false {rules : Rules} {r : Category × Predicates} (hr : r ∈ rules) (hne : r.2 ≠ []) :
    rules.isVoid = false :=
  Bool.eq_false_iff.2 fun h => hne (isVoid_iff.1 h r hr)

theorem isVoid_iff_find? {rules : Rules} (h : rules.Ordered) :
    rules.isVoid = true ↔ ∀ c, (rules.find? c).getD [] = [] := by
  rw [isVoid_iff]
  constructor
  · intro hv c
    cases hf : rules.find? c with
    | none => rfl
    | some ps => exact hv _ ((find?_eq_some_iff h).1 hf)
  · intro hv r hr
    have hf := hv r.1
    rwa [(find?_eq_some_iff h).2 hr] at hf

theorem isVoid_merge {rules : Rules} (h : rules.Ordered) {new : Rules} (hn : new.Ordered) :
    (rules.merge new).isVoid = (rules.isVoid && new.isVoid) := by
  rw [Bool.eq_iff_iff, Bool.and_eq_true, isVoid_iff_find? (h.merge new), isVoid_iff_find? h, isVoid_iff_find? hn,
    ← forall_and]
  refine forall_congr' fun c => ?_
  rw [getD_find?_merge h hn, Predicates.union_eq_nil (h.getD_find? c)]

theorem isVoid_add (rules : Rules) (h : rules.Ordered) (c : Category) (p : Predicate) :
    (rules.add c p).isVoid = false := by
  have hf : (rules.add c p).find? c = _ := find?_extend_self h c [p]
  refine isVoid_eq_false ((find?_eq_some_iff (h.add c p)).1 hf) fun hu => ?_
  cases ((Predicates.union_eq_nil (h.getD_find? c)).1 hu).2

theorem ne_nil_of_mem_merge {rules : Rules} (h : rules.Ordered) (ht : ∀ r ∈ rules, r.2 ≠ []) {new : Rules}
    (hn : new.Ordered) (ha : ∀ r ∈ new, r.2 ≠ []) : ∀ r ∈ rules.merge new, r.2 ≠ [] := by
  rw [prune_eq_self ha |>.symm, ← prune_merge h ht hn]
  exact fun r hr => prune_ne_nil hr

end Rules

/-! ## Trees -/

namespace RuleTree

/-- No category has an empty set and no branch leads to an empty tree, here and below. -/
inductive Pruned : RuleTree → Prop
  | mk {t : RuleTree} : (∀ r ∈ t.rules, r.2 ≠ []) → (∀ e b, t.branch? e = some b → b.2.isEmpty = false) →
      (∀ e b, t.branch? e = some b → Pruned b.2) → Pruned t

variable {t a : RuleTree}

theorem Pruned.rules : t.Pruned → ∀ r ∈ t.rules, r.2 ≠ []
  | .mk h _ _ => h

theorem Pruned.nonempty : t.Pruned → ∀ {e b}, t.branch? e = some b → b.2.isEmpty = false
  | .mk _ h _ => fun hb => h _ _ hb

theorem Pruned.subtree : t.Pruned → ∀ {e b}, t.branch? e = some b → b.2.Pruned
  | .mk _ _ h => fun hb => h _ _ hb

theorem Pruned.getD_empty (h : t.Pruned) (e : Edge) : (((t.branch? e).map Prod.snd).getD empty).Pruned := by
  cases hb : t.branch? e with
  | none => exact .mk (fun _ hr => nomatch hr) (fun _ _ hb => nomatch hb) fun _ _ hb => nomatch hb
  | some b => exact h.subtree hb

theorem pruned_empty : empty.Pruned :=
  .mk (fun _ hr => nomatch hr) (fun _ _ hb => nomatch hb) fun _ _ hb => nomatch hb

theorem Pruned.eq_empty (h : t.Pruned) (he : t.isEmpty = true) : t = empty := by
  obtain ⟨hv, hb⟩ := isEmpty_iff.1 he
  refine ext_branches ?_ fun e => (hb e).trans (branch?_empty e).symm
  exact List.eq_nil_iff_forall_not_mem.2 fun r hr => h.rules r hr (Rules.isVoid_iff.1 hv r hr)

theorem isEmpty_eq_false_of_branch {e : Edge} {b : Segment × RuleTree} (h : t.branch? e = some b) :
    t.isEmpty = false :=
  Bool.eq_false_iff.2 fun he => by rw [(isEmpty_iff.1 he).2 e] at h; cases h

/-- A union is empty only if both trees are. -/
theorem isEmpty_merge (t a : RuleTree) : (t.merge a).isEmpty = (t.isEmpty && a.isEmpty) := by
  rw [Bool.eq_iff_iff, Bool.and_eq_true, isEmpty_iff, isEmpty_iff, isEmpty_iff, rules_merge,
    Rules.isVoid_merge t.rules_ordered a.rules_ordered, Bool.and_eq_true]
  simp only [branch?_merge, Option.merge_eq_none_iff, forall_and]
  exact and_and_and_comm

theorem isEmpty_add (t : RuleTree) (c : Category) (p : Predicate) : (t.add c p).isEmpty = false :=
  Bool.eq_false_iff.2 fun h => by
    have hv := (isEmpty_iff.1 h).1
    rw [rules_add, Rules.isVoid_add t.rules t.rules_ordered] at hv
    cases hv

theorem isEmpty_mergeAt (ha : a.isEmpty = false) (p : Path) (t : RuleTree) : (t.mergeAt p a).isEmpty = false := by
  cases p with
  | nil => rw [mergeAt_nil, isEmpty_merge, ha, Bool.and_false]
  | cons s p => exact isEmpty_eq_false_of_branch (branch?_mergeAt_self t a s p)

/-! ### What keeps trees pruned -/

theorem Pruned.merge (ht : t.Pruned) (ha : a.Pruned) : (t.merge a).Pruned := by
  induction a using RuleTree.induction generalizing t with
  | step a ih =>
    have hbranch : ∀ e b, (t.merge a).branch? e = some b → b.2.isEmpty = false ∧ b.2.Pruned := by
      intro e b hb
      rw [branch?_merge] at hb
      rcases Option.merge_eq_some_iff.1 hb with ⟨hx, -⟩ | ⟨-, hy⟩ | ⟨x, y, hx, hy, rfl⟩
      · exact ⟨ht.nonempty hx, ht.subtree hx⟩
      · exact ⟨ha.nonempty hy, ha.subtree hy⟩
      · exact ⟨by rw [isEmpty_merge, ht.nonempty hx, Bool.false_and], ih e y hy (ht.subtree hx) (ha.subtree hy)⟩
    refine .mk ?_ (fun e b hb => (hbranch e b hb).1) fun e b hb => (hbranch e b hb).2
    rw [rules_merge]
    exact Rules.ne_nil_of_mem_merge t.rules_ordered ht.rules a.rules_ordered ha.rules

theorem pruned_leaf (c : Category) (p : Predicate) : (empty.add c p).Pruned := by
  refine .mk ?_ (fun _ _ hb => nomatch hb) fun _ _ hb => nomatch hb
  intro r hr
  obtain rfl : r = (c, [p]) := List.mem_singleton.1 hr
  exact List.cons_ne_nil p []

theorem Pruned.add (ht : t.Pruned) (c : Category) (p : Predicate) : (t.add c p).Pruned := by
  rw [add_eq_merge]
  exact ht.merge (pruned_leaf c p)

theorem Pruned.mergeAt (ht : t.Pruned) (ha : a.Pruned) (hne : a.isEmpty = false) (p : Path) :
    (t.mergeAt p a).Pruned := by
  induction p generalizing t with
  | nil => exact ht.merge ha
  | cons s p ih =>
    have hbranch : ∀ e b, (t.mergeAt (s :: p) a).branch? e = some b → b.2.isEmpty = false ∧ b.2.Pruned := by
      intro e b hb
      by_cases he : e = s.edge
      · subst he
        rw [branch?_mergeAt_self] at hb
        cases hb
        exact ⟨isEmpty_mergeAt hne p _, ih (ht.getD_empty s.edge)⟩
      · rw [branch?_mergeAt_of_ne t a he] at hb
        exact ⟨ht.nonempty hb, ht.subtree hb⟩
    exact .mk ht.rules (fun e b hb => (hbranch e b hb).1) fun e b hb => (hbranch e b hb).2

/-! ### Pruning -/

theorem pruneBranch?_eq_some {b b' : Segment × RuleTree} :
    pruneBranch? b = some b' ↔ b.2.prune.isEmpty = false ∧ b' = (b.1, b.2.prune) := by
  unfold pruneBranch?
  split
  · next h => simp [h]
  · next h => simp [h, eq_comm]

theorem pruned_prune (t : RuleTree) : t.prune.Pruned := by
  induction t using RuleTree.induction with
  | step t ih =>
    have hbranch : ∀ e b, t.prune.branch? e = some b → b.2.isEmpty = false ∧ b.2.Pruned := by
      intro e b hb
      rw [branch?_prune] at hb
      obtain ⟨x, hx, hb⟩ := Option.bind_eq_some_iff.1 hb
      obtain ⟨hne, rfl⟩ := pruneBranch?_eq_some.1 hb
      exact ⟨hne, ih e x hx⟩
    refine .mk ?_ (fun e b hb => (hbranch e b hb).1) fun e b hb => (hbranch e b hb).2
    rw [rules_prune]
    exact fun r hr => Rules.prune_ne_nil hr

theorem prune_eq_self (h : t.Pruned) : t.prune = t := by
  induction h with
  | @mk t hr hne _ ih =>
    refine ext_branches ((rules_prune t).trans (Rules.prune_eq_self hr)) fun e => ?_
    rw [branch?_prune]
    cases hb : t.branch? e with
    | none => rfl
    | some b =>
      have hp : b.2.prune = b.2 := ih e b hb
      exact pruneBranch?_eq_some.2 ⟨by rw [hp]; exact hne e b hb, by rw [hp]⟩

theorem Pruned.bind_pruneBranch? (h : t.Pruned) (e : Edge) : (t.branch? e).bind pruneBranch? = t.branch? e := by
  rw [← branch?_prune, prune_eq_self h]

/-- Empty sets and trees on the right are lost in a union with a pruned tree, and the labels above them with them. -/
theorem prune_merge (ht : t.Pruned) (a : RuleTree) : (t.merge a).prune = t.merge a.prune := by
  induction a using RuleTree.induction generalizing t with
  | step a ih =>
    refine ext_branches ?_ fun e => ?_
    · rw [rules_prune, rules_merge, rules_merge, rules_prune]
      exact Rules.prune_merge t.rules_ordered ht.rules a.rules_ordered
    · rw [branch?_prune, branch?_merge, branch?_merge, branch?_prune]
      cases hy : a.branch? e with
      | none =>
        rw [Option.bind_none, Option.merge_none_right, ht.bind_pruneBranch?]
      | some y =>
        cases hx : t.branch? e with
        | none => rw [Option.merge_none_left, Option.merge_none_left]
        | some x =>
          have hp : (x.2.merge y.2).prune = x.2.merge y.2.prune := ih e y hy (ht.subtree hx)
          have hl : pruneBranch? (x.1, x.2.merge y.2) = some (x.1, x.2.merge y.2.prune) :=
            pruneBranch?_eq_some.2 ⟨by rw [hp, isEmpty_merge, ht.nonempty hx, Bool.false_and], by rw [hp]⟩
          refine hl.trans ?_
          show _ = Option.merge _ _ (pruneBranch? y)
          unfold pruneBranch?
          split
          · next hv => rw [(pruned_prune y.2).eq_empty hv, merge_empty, Option.merge_none_right]
          · rfl

/-- Union and pruning in one, at the end of a path. -/
theorem mergePruned_eq_prune (ht : t.Pruned) (p : Path) (a : RuleTree) :
    t.mergePruned p a = (t.mergeAt p a).prune := by
  induction p generalizing t with
  | nil => exact (prune_merge ht a).symm
  | cons s p ih =>
    have hr : (t.mergeAt (s :: p) a).prune.rules = t.rules :=
      (rules_prune _).trans (Rules.prune_eq_self ht.rules)
    refine ext_branches hr.symm fun e => ?_
    rw [branch?_prune]
    by_cases he : e = s.edge
    · subst he
      rw [branch?_mergePruned_self, branch?_mergeAt_self, ih (ht.getD_empty s.edge)]
      rfl
    · rw [branch?_mergePruned_of_ne t a he, branch?_mergeAt_of_ne t a he, ht.bind_pruneBranch?]

/-- A tree that holds something is just united. -/
theorem mergePruned_eq_mergeAt (ht : t.Pruned) (ha : a.Pruned) (hne : a.isEmpty = false) (p : Path) :
    t.mergePruned p a = t.mergeAt p a := by
  rw [mergePruned_eq_prune ht, prune_eq_self (ht.mergeAt ha hne p)]

/-- The empty tree leaves no trace. -/
theorem mergePruned_empty (ht : t.Pruned) (p : Path) : t.mergePruned p empty = t := by
  induction p generalizing t with
  | nil =>
    rw [mergePruned_nil, prune_eq_self pruned_empty, merge_empty]
  | cons s p ih =>
    refine ext_branches rfl fun e => ?_
    by_cases he : e = s.edge
    · subst he
      rw [branch?_mergePruned_self, ih (ht.getD_empty s.edge)]
      cases hb : t.branch? s.edge with
      | none => rfl
      | some b =>
        show (if b.2.isEmpty then none else some b) = some b
        rw [ht.nonempty hb]
        rfl
    · exact branch?_mergePruned_of_ne t empty he p

end RuleTree

end AccessRules
