import AccessRules.Proofs.Rows

/-!
# Listed trees come back

The tree of a row has the rules that the row lists (`node_tree`). Putting the later rows below it, `graft` passes over
those that hang elsewhere (`graft_append`), so from the rows of a pruned tree it builds this tree, whatever rows that
hang elsewhere stand behind them (`graft_rowsBelow`).
-/

namespace AccessRules

theorem Keyed.alter_of_forall_lt {ε κ : Type} [Ord κ] [Std.OrientedOrd κ] {key : ε → κ} {k : κ}
    {f : Option ε → Option ε} {l : List ε} (h : ∀ e ∈ l, compare (key e) k = .lt) :
    alter key k f l = l ++ (f none).toList := by
  induction l with
  | nil => rfl
  | cons e l ih =>
    obtain ⟨he, hl⟩ := List.forall_mem_cons.1 h
    rw [alter, Std.OrientedCmp.gt_iff_lt.2 he]
    exact congrArg (e :: ·) (ih hl)

/-! ## The tree of a row -/

namespace Rules

theorem extend_extend {rules : Rules} (h : rules.Ordered) (c : Category) (ps qs : List Predicate) :
    (rules.extend c ps).extend c qs = rules.extend c (ps ++ qs) := by
  refine ext ((h.extend c ps).extend c qs) (h.extend c _) fun c' => ?_
  by_cases hc : c' = c
  · subst hc
    rw [find?_extend_self (h.extend c' ps), find?_extend_self h, find?_extend_self h]
    exact congrArg some (List.foldl_append ..).symm
  · rw [find?_extend_of_ne hc, find?_extend_of_ne hc, find?_extend_of_ne hc]

/-- Adding predicates one by one adds them all. -/
theorem foldl_add {rules : Rules} (h : rules.Ordered) (c : Category) (ps qs : List Predicate) :
    qs.foldl (fun acc p => acc.add c p) (rules.extend c ps) = rules.extend c (ps ++ qs) := by
  induction qs generalizing ps with
  | nil => rw [List.append_nil]; rfl
  | cons q qs ih =>
    rw [List.foldl_cons, add, extend_extend h, ih, List.append_assoc]
    rfl

end Rules

namespace Listing

theorem node_foldl_add (c : Category) (ps : List Predicate) (t : RuleTree) :
    (ps.foldl (fun t p => t.add c p) t).node = .mk (ps.foldl (fun acc p => acc.add c p) t.rules) t.node.branches := by
  induction ps generalizing t with
  | nil => exact (Node.mk_eta t.node).symm
  | cons p ps ih =>
    rw [List.foldl_cons, ih]
    rfl

/-- The tree of a row has the rules that are listed, and no branches. -/
theorem node_tree {row : Row} (h : ∀ r ∈ row.rules, r.2 ≠ []) : row.tree.node = .mk (Rules.merge [] row.rules) [] := by
  suffices H : ∀ (rules : Rules), (∀ r ∈ rules, r.2 ≠ []) → ∀ t : RuleTree,
      (rules.foldl (fun t r => r.2.foldl (fun t p => t.add r.1 p) t) t).node = .mk (t.rules.merge rules) t.node.branches
    from H row.rules h .empty
  intro rules
  induction rules with
  | nil => exact fun _ t => (Node.mk_eta t.node).symm
  | cons r rules ih =>
    intro h t
    obtain ⟨hr, hrules⟩ := List.forall_mem_cons.1 h
    obtain ⟨p, ps, hps⟩ := List.exists_cons_of_ne_nil hr
    have hadd : r.2.foldl (fun acc p => acc.add r.1 p) t.rules = t.rules.extend r.1 r.2 := by
      rw [hps]
      exact Rules.foldl_add t.rules_ordered r.1 [p] ps
    have hnode := node_foldl_add r.1 r.2 t
    rw [hadd] at hnode
    rw [List.foldl_cons, ih hrules, hnode, RuleTree.rules, hnode]
    rfl

theorem node_tree_of_pruned {c : Node} (h : c.Ordered) (hp : RuleTree.Pruned ⟨c, h⟩) (parent : Option Nat)
    (edge : Option Segment) :
    (Row.tree ⟨parent, edge, c.rules⟩).node = .mk c.rules [] := by
  rw [node_tree hp.rules, Rules.nil_merge h.rules]

/-! ## Grafting -/

theorem graft_cons_self (index i : Nat) (t : RuleTree) (s : Segment) (rules : Rules) (later : List (Row × Nat)) :
    graft index t ((⟨some index, some s, rules⟩, i) :: later) =
      graft index (t.put s (graft i (Row.tree ⟨some index, some s, rules⟩) later)) later := by
  rw [graft]
  exact if_pos rfl

/-- Rows that hang elsewhere are passed over. -/
theorem graft_append {index : Nat} {rows : List (Row × Nat)} (h : ∀ x ∈ rows, x.1.parent ≠ some index) (t : RuleTree)
    (later : List (Row × Nat)) : graft index t (rows ++ later) = graft index t later := by
  induction rows with
  | nil => rfl
  | cons x rows ih =>
    obtain ⟨hx, hrows⟩ := List.forall_mem_cons.1 h
    rw [List.cons_append, graft]
    split
    · next p s hp hs =>
      have hne : p ≠ index := by
        rintro rfl
        exact hx hp
      rw [if_neg hne, ih hrows]
    · exact ih hrows

theorem graft_of_forall {index : Nat} {rows : List (Row × Nat)} (h : ∀ x ∈ rows, x.1.parent ≠ some index)
    (t : RuleTree) : graft index t rows = t := by
  rw [← List.append_nil rows, graft_append h]
  rfl

/-- Putting a node behind the last branch. -/
theorem node_put {t : RuleTree} {s : Segment} {c : RuleTree}
    (h : ∀ b ∈ t.node.branches, compare (Node.branchEdge b) s.edge = .lt) :
    (t.put s c).node = .mk t.node.rules (t.node.branches ++ [(s, c.node)]) :=
  congrArg (Node.mk t.node.rules) (Keyed.alter_of_forall_lt h)

/-- The rows of branches, put below a tree behind the branches that it has. -/
theorem graft_rowsBelow {parent next : Nat} (hn : parent < next) {branches : Branches} (hk : ∀ b ∈ branches, b.2.Kept)
    {t : RuleTree} (hasc : Keyed.Ascending Node.branchEdge (t.node.branches ++ branches)) (later : List (Row × Nat))
    (hl : ∀ x ∈ later, ∀ p, x.1.parent = some p → p ≠ parent ∧ (p < next ∨ next + Node.sizeBelow branches ≤ p)) :
    (graft parent t ((rowsBelow parent next branches).zipIdx next ++ later)).node =
      .mk t.node.rules (t.node.branches ++ branches) := by
  induction branches using Node.induction_below generalizing parent next t later with
  | nil =>
    have hnone : ∀ x ∈ later, x.1.parent ≠ some parent := fun x hx hp => (hl x hx parent hp).1 rfl
    show (graft parent t later).node = _
    rw [graft_of_forall hnone, List.append_nil, Node.mk_eta]
  | cons s c rest ihc ihr =>
    obtain ⟨hc, hrest⟩ := List.forall_mem_cons.1 hk
    have hsize := Node.size_eq c
    have hsizes : Node.sizeBelow ((s, c) :: rest) = c.size + Node.sizeBelow rest := by rw [Node.sizeBelow]
    -- The rows below this branch, with those of the other branches among the rows that hang elsewhere.
    have hsub : graft next (Row.tree ⟨some parent, some s, c.rules⟩)
        ((rowsBelow next (next + 1) c.branches).zipIdx (next + 1) ++
          ((rowsBelow parent (next + c.size) rest).zipIdx (next + c.size) ++ later)) = ⟨c, hc.ordered⟩ := by
      have htree := node_tree_of_pruned hc.ordered hc.pruned (some parent) (some s)
      refine RuleTree.ext ((ihc (Nat.lt_succ_self next) hc.pruned.kept ?_ _ fun x hx p hp => ?_).trans ?_)
      · rw [htree]
        exact hc.ordered.ascending
      · rcases List.mem_append.1 hx with hx | hx
        · have hparent := parent_of_mem (by omega) hx hp
          omega
        · have hlater := (hl x hx p hp).2
          omega
      · rw [htree]
        exact Node.mk_eta c
    have hbelow : ∀ x ∈ (rowsBelow next (next + 1) c.branches).zipIdx (next + 1), x.1.parent ≠ some parent := by
      intro x hx hp
      have hparent := parent_of_mem (Nat.lt_succ_self next) hx hp
      omega
    have hput : (t.put s ⟨c, hc.ordered⟩).node = .mk t.node.rules (t.node.branches ++ [(s, c)]) :=
      node_put fun b hb => (List.pairwise_append.1 hasc).2.2 b hb (s, c) List.mem_cons_self
    rw [zipIdx_rowsBelow_cons, List.cons_append, List.append_assoc, graft_cons_self, hsub, graft_append hbelow,
      ihr (by omega) hrest, hput]
    · exact congrArg (Node.mk t.node.rules) (List.append_assoc ..)
    · rw [hput]
      show Keyed.Ascending Node.branchEdge ((t.node.branches ++ [(s, c)]) ++ rest)
      rw [List.append_assoc]
      exact hasc
    · intro x hx p hp
      have hlater := hl x hx p hp
      omega

/-- **Listed trees come back.** -/
theorem toTree_ofTree (t : RuleTree) (source : Option String) : (ofTree t source).toTree = t.prune := by
  have hp := RuleTree.pruned_prune t
  have hrows : (ofTree t source).rows.zipIdx =
      (⟨none, none, t.prune.node.rules⟩, 0) :: (rowsBelow 0 1 t.prune.node.branches).zipIdx 1 := by
    show (rowsOf 0 none none t.prune.node).zipIdx = _
    rw [rowsOf_eq, List.zipIdx_cons]
  have htree := node_tree_of_pruned t.prune.ordered hp none none
  have hgraft := graft_rowsBelow Nat.one_pos hp.kept (t := Row.tree ⟨none, none, t.prune.node.rules⟩)
    (by rw [htree]; exact t.prune.ordered.ascending) [] nofun
  rw [List.append_nil, htree] at hgraft
  unfold toTree
  rw [hrows]
  exact RuleTree.ext (hgraft.trans (Node.mk_eta t.prune.node))

end Listing

end AccessRules
