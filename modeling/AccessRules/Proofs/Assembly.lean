import AccessRules.Proofs.Counting
import AccessRules.Proofs.Faults
import AccessRules.Proofs.Grafting
import Mathlib.Algebra.BigOperators.Intervals

/-!
# The tree at a row

Fix a well-formed listing. The tree of the listing has a tree at each of its rows (`treeAt`): the rules that the row
lists, and below it, along the edge of each row that hangs on it, the tree at that row (`branch?_treeAt_iff`). In which
order the rows stand does not matter beyond that each hangs on an earlier one.

Every row but the first hangs on exactly one, so what a branch adds to the tree above it is counted once: an additive
count of the tree is the sum of the counts of the rows (`additive_toTree`).
-/

namespace AccessRules

/-! ## Putting branches below a tree -/

namespace RuleTree

theorem rules_put (t : RuleTree) (s : Segment) (c : RuleTree) : (t.put s c).rules = t.rules := rfl

theorem branch?_put_self (t : RuleTree) (s : Segment) (c : RuleTree) :
    (t.put s c).branch? s.edge = some (((t.branch? s.edge).map Prod.fst).getD s, c) := by
  rw [branch?_eq_iff]
  show Keyed.find? _ _ (Node.alterBranch s (fun _ => some c.node) t.node.branches) = _
  rw [Node.find?_alterBranch_self t.ordered.ascending, find?_branches]
  cases t.branch? s.edge <;> rfl

theorem branch?_put_of_ne (t : RuleTree) {s : Segment} {e : Edge} (he : e ≠ s.edge) (c : RuleTree) :
    (t.put s c).branch? e = t.branch? e := by
  rw [branch?_eq_iff, map_bare_branch?]
  show Keyed.find? _ _ (Node.alterBranch s (fun _ => some c.node) t.node.branches) = _
  exact Node.find?_alterBranch_of_ne he _ _

/-- Put branches below a tree, one after the other. -/
def putAll (t : RuleTree) (branches : List (Segment × RuleTree)) : RuleTree :=
  branches.foldl (fun t b => t.put b.1 b.2) t

theorem rules_putAll (t : RuleTree) (branches : List (Segment × RuleTree)) : (t.putAll branches).rules = t.rules := by
  induction branches generalizing t with
  | nil => rfl
  | cons b rest ih => exact (ih (t.put b.1 b.2)).trans (rules_put t b.1 b.2)

/-- The edges of branches are distinct, and new to a tree. -/
def NewTo (branches : List (Segment × RuleTree)) (t : RuleTree) : Prop :=
  (branches.map fun b => b.1.edge).Nodup ∧ ∀ b ∈ branches, t.branch? b.1.edge = none

theorem NewTo.tail {b : Segment × RuleTree} {rest : List (Segment × RuleTree)} {t : RuleTree}
    (h : NewTo (b :: rest) t) : t.branch? b.1.edge = none ∧ NewTo rest (t.put b.1 b.2) := by
  obtain ⟨hnodup, hnew⟩ := h
  rw [List.map_cons, List.nodup_cons] at hnodup
  obtain ⟨hb, hrest⟩ := List.forall_mem_cons.1 hnew
  refine ⟨hb, hnodup.2, fun b' hb' => ?_⟩
  have hne : b'.1.edge ≠ b.1.edge := by
    intro heq
    exact hnodup.1 (heq ▸ List.mem_map_of_mem (f := fun b => b.1.edge) hb')
  rw [branch?_put_of_ne t hne]
  exact hrest b' hb'

theorem NewTo.sublist {branches branches' : List (Segment × RuleTree)} {t : RuleTree} (h : NewTo branches t)
    (hsub : branches'.Sublist branches) : NewTo branches' t :=
  ⟨h.1.sublist (hsub.map _), fun b hb => h.2 b (hsub.subset hb)⟩

/-- A tree with new branches has these and those that it had. -/
theorem branch?_putAll_iff {branches : List (Segment × RuleTree)} {t : RuleTree} (h : NewTo branches t) {e : Edge}
    {b : Segment × RuleTree} :
    (t.putAll branches).branch? e = some b ↔ t.branch? e = some b ∨ b ∈ branches ∧ b.1.edge = e := by
  induction branches generalizing t with
  | nil => simp [putAll]
  | cons a rest ih =>
    obtain ⟨ha, hrest⟩ := h.tail
    refine (ih hrest).trans ?_
    by_cases he : e = a.1.edge
    · subst he
      rw [branch?_put_self, ha]
      simp only [Option.map_none, Option.getD_none, Option.some.injEq, reduceCtorEq, false_or, List.mem_cons]
      constructor
      · rintro (rfl | ⟨hb, hkey⟩)
        · exact ⟨.inl rfl, rfl⟩
        · exact ⟨.inr hb, hkey⟩
      · rintro ⟨rfl | hb, hkey⟩
        · exact .inl rfl
        · exact .inr ⟨hb, hkey⟩
    · rw [branch?_put_of_ne t he]
      have hb : b = a → b.1.edge ≠ e := by
        rintro rfl heq
        exact he heq.symm
      rw [List.mem_cons, or_and_right]
      refine or_congr_right (or_iff_right ?_).symm
      rintro ⟨hba, hkey⟩
      exact hb hba hkey

/-- In which order new branches are put below a tree does not matter. -/
theorem putAll_perm {branches branches' : List (Segment × RuleTree)} {t : RuleTree} (h : NewTo branches t)
    (hperm : branches.Perm branches') : t.putAll branches = t.putAll branches' := by
  have h' : NewTo branches' t := ⟨(hperm.map _).nodup_iff.1 h.1, fun b hb => h.2 b (hperm.mem_iff.2 hb)⟩
  refine ext_branches ((rules_putAll t _).trans (rules_putAll t _).symm) fun e => Option.ext fun b => ?_
  rw [branch?_putAll_iff h, branch?_putAll_iff h', hperm.mem_iff]

/-- The first of the new branches may as well be put last. -/
theorem putAll_cons {b : Segment × RuleTree} {rest : List (Segment × RuleTree)} {t : RuleTree}
    (h : NewTo (b :: rest) t) : t.putAll (b :: rest) = (t.putAll rest).put b.1 b.2 := by
  rw [putAll_perm h (List.perm_append_singleton b rest).symm]
  exact List.foldl_append

theorem Additive.putAll {μ : RuleTree → Nat} (hμ : Additive μ) {branches : List (Segment × RuleTree)} {t : RuleTree}
    (h : NewTo branches t) : μ (t.putAll branches) = μ t + (branches.map fun b => μ b.2).sum := by
  induction branches generalizing t with
  | nil => rfl
  | cons b rest ih =>
    obtain ⟨hb, hrest⟩ := h.tail
    refine (ih hrest).trans ?_
    rw [hμ t b.1 b.2 hb, List.map_cons, List.sum_cons, Nat.add_assoc]

end RuleTree

namespace Listing

open RuleTree (putAll NewTo Additive)

/-! ## Rows that hang on a row -/

/-- The row at position `j` hangs on the row at position `i` by a segment. -/
def HangsBy (rows : List Row) (j i : Nat) (s : Segment) : Prop := ∃ rules, rows[j]? = some ⟨some i, some s, rules⟩

section

variable {l : Listing} {i j j' : Nat} {s s' : Segment}

theorem WellFormed.root_eq (h : l.WellFormed) : ∃ rules, l.rows[0]? = some ⟨none, none, rules⟩ := by
  obtain ⟨rules, rest, hrows⟩ := h.root
  exact ⟨rules, by rw [hrows]; rfl⟩

theorem WellFormed.length_pos (h : l.WellFormed) : 0 < l.rows.length := by
  obtain ⟨rules, rest, hrows⟩ := h.root
  rw [hrows]
  exact Nat.succ_pos _

/-- Every row but the first hangs on an earlier one. -/
theorem WellFormed.hangs (h : l.WellFormed) (hj : j < l.rows.length) (hpos : 0 < j) :
    ∃ i s, HangsBy l.rows j i s ∧ i < j := by
  obtain ⟨rules, rest, hrows⟩ := h.root
  obtain ⟨j, rfl⟩ := Nat.exists_eq_add_one_of_ne_zero (Nat.ne_of_gt hpos)
  have hlinked := h.linked
  rw [hrows] at hj hlinked
  have hlt : j < rest.length := Nat.lt_of_succ_lt_succ hj
  have hrow : (rest[j], j + 1) ∈ rest.zipIdx 1 := by
    rw [List.mk_mem_zipIdx_iff_le_and_getElem?_sub]
    exact ⟨by omega, by simp⟩
  obtain ⟨p, s, hp, hs, hbefore⟩ := hlinked _ hrow
  refine ⟨p, s, ⟨rest[j].rules, ?_⟩, hbefore⟩
  rw [hrows, List.getElem?_cons_succ, List.getElem?_eq_getElem hlt, ← hp, ← hs]

theorem HangsBy.lt_length {rows : List Row} (h : HangsBy rows j i s) : j < rows.length := by
  obtain ⟨rules, hrow⟩ := h
  exact (List.getElem?_eq_some_iff.1 hrow).1

theorem WellFormed.lt_of_hangsBy (h : l.WellFormed) (hj : HangsBy l.rows j i s) : i < j := by
  obtain ⟨rules, hrow⟩ := hj
  have hpos : 0 < j := by
    refine Nat.pos_of_ne_zero ?_
    rintro rfl
    obtain ⟨_, hroot⟩ := h.root_eq
    cases hroot.symm.trans hrow
  obtain ⟨p, s', ⟨_, hrow'⟩, hlt⟩ := h.hangs (HangsBy.lt_length ⟨rules, hrow⟩) hpos
  cases hrow.symm.trans hrow'
  exact hlt

/-- No two rows hang on one row by the same edge. -/
theorem WellFormed.eq_of_hangsBy (h : l.WellFormed) (hj : HangsBy l.rows j i s) (hj' : HangsBy l.rows j' i s')
    (he : s.edge = s'.edge) : j = j' := by
  obtain ⟨rules, hrow⟩ := hj
  obtain ⟨rules', hrow'⟩ := hj'
  obtain ⟨hlt, hrow⟩ := List.getElem?_eq_some_iff.1 hrow
  obtain ⟨hlt', hrow'⟩ := List.getElem?_eq_some_iff.1 hrow'
  have hdistinct := List.pairwise_iff_getElem.1 (List.pairwise_filterMap.1 h.distinctEdges)
  rcases Nat.lt_trichotomy j j' with hjj | hjj | hjj
  · refine absurd rfl (hdistinct j j' hlt hlt' hjj (i, s.edge) ?_ (i, s.edge) ?_)
    · simp [hrow, Row.link?]
    · simp [hrow', Row.link?, he]
  · exact hjj
  · refine absurd rfl (hdistinct j' j hlt' hlt hjj (i, s.edge) ?_ (i, s.edge) ?_)
    · simp [hrow', Row.link?, he]
    · simp [hrow, Row.link?]

end

/-! ## The tree at a row -/

/-- The tree at a row: what later rows list below it has been put there. -/
def treeAt (rows : List Row) (i : Nat) : RuleTree :=
  match rows[i]? with
  | none => .empty
  | some row => graft i row.tree (rows.zipIdx.drop (i + 1))

/-- The branch that the row at position `j` makes on the row at position `i`, if it hangs there. -/
def branchAt? (rows : List Row) (i j : Nat) : Option (Segment × RuleTree) :=
  match rows[j]? with
  | some ⟨some p, some s, _⟩ => if p = i then some (s, treeAt rows j) else none
  | _ => none

theorem branchAt?_eq_some_iff {rows : List Row} {i j : Nat} {b : Segment × RuleTree} :
    branchAt? rows i j = some b ↔ HangsBy rows j i b.1 ∧ b.2 = treeAt rows j := by
  unfold branchAt? HangsBy
  split
  · next p s rules hrow =>
    rw [hrow]
    obtain ⟨s', c⟩ := b
    by_cases hp : p = i
    · simp [hp, eq_comm]
    · simp [hp]
  · next hrow =>
    refine iff_of_false (by simp) ?_
    rintro ⟨⟨rules, heq⟩, -⟩
    exact hrow _ _ _ heq

/-- Putting later rows below a tree puts the branches that they make there. -/
theorem graft_drop (rows : List Row) (i k : Nat) (t : RuleTree) :
    graft i t (rows.zipIdx.drop k) = t.putAll ((List.range' k (rows.length - k)).filterMap (branchAt? rows i)) := by
  induction hm : rows.length - k generalizing k t with
  | zero =>
    rw [List.drop_eq_nil_of_le (by rw [List.length_zipIdx]; omega)]
    rfl
  | succ m ih =>
    have hk : k < rows.length := by omega
    have hdrop : rows.zipIdx.drop k = (rows[k], k) :: rows.zipIdx.drop (k + 1) := by
      rw [List.drop_eq_getElem_cons (by rw [List.length_zipIdx]; exact hk)]
      simp
    have hlater := ih (k + 1)
    rw [hdrop, List.range'_succ, List.filterMap_cons]
    -- What is put below for this row is the branch that it makes.
    have hstep : graft i t ((rows[k], k) :: rows.zipIdx.drop (k + 1)) =
        (branchAt? rows i k).elim (graft i t (rows.zipIdx.drop (k + 1)))
          fun b => graft i (t.put b.1 b.2) (rows.zipIdx.drop (k + 1)) := by
      have hrow : rows[k]? = some rows[k] := List.getElem?_eq_getElem hk
      unfold branchAt? treeAt
      rw [graft]
      simp only [hrow]
      generalize rows[k] = row
      obtain ⟨parent, edge, rules⟩ := row
      cases parent with
      | none => rfl
      | some p =>
        cases edge with
        | none => rfl
        | some s =>
          by_cases hp : p = i
          · simp [hp]
          · simp [hp]
    rw [hstep]
    cases branchAt? rows i k with
    | none => exact hlater t (by omega)
    | some b => exact hlater (t.put b.1 b.2) (by omega)

theorem range_eq_append {k n : Nat} (h : k ≤ n) : List.range n = List.range' 0 k ++ List.range' k (n - k) := by
  have happend := List.range'_append_1 (s := 0) (m := k) (n := n - k)
  rw [Nat.zero_add, Nat.add_sub_cancel' h] at happend
  rw [List.range_eq_range', happend]

/-- The branches that the rows of a listing make on one of them. -/
def branchesAt (rows : List Row) (i : Nat) : List (Segment × RuleTree) :=
  (List.range rows.length).filterMap (branchAt? rows i)

section

variable {l : Listing} {i j : Nat}

theorem mem_branchesAt {rows : List Row} {b : Segment × RuleTree} :
    b ∈ branchesAt rows i ↔ ∃ j, HangsBy rows j i b.1 ∧ b.2 = treeAt rows j := by
  simp only [branchesAt, List.mem_filterMap, branchAt?_eq_some_iff, List.mem_range]
  constructor
  · rintro ⟨j, -, hj⟩
    exact ⟨j, hj⟩
  · rintro ⟨j, hj⟩
    exact ⟨j, hj.1.lt_length, hj⟩

theorem WellFormed.treeAt_eq (h : l.WellFormed) {row : Row} (hi : l.rows[i]? = some row) :
    treeAt l.rows i = row.tree.putAll (branchesAt l.rows i) := by
  have hlt : i < l.rows.length := (List.getElem?_eq_some_iff.1 hi).1
  -- No row up to this one hangs on it.
  have hbefore : (List.range' 0 (i + 1)).filterMap (branchAt? l.rows i) = [] := by
    rw [List.filterMap_eq_nil_iff]
    intro j hj
    rw [List.mem_range'_1] at hj
    refine Option.eq_none_iff_forall_ne_some.2 fun b hb => ?_
    have := h.lt_of_hangsBy (branchAt?_eq_some_iff.1 hb).1
    omega
  unfold treeAt branchesAt
  simp only [hi]
  rw [graft_drop, range_eq_append hlt, List.filterMap_append, hbefore, List.nil_append]

theorem WellFormed.toTree_eq (h : l.WellFormed) : l.toTree = treeAt l.rows 0 := by
  obtain ⟨rules, rest, hrows⟩ := h.root
  unfold toTree treeAt
  simp [hrows]

/-- The tree of a row by itself. -/
theorem WellFormed.rowTree_eq (h : l.WellFormed) {row : Row} (hi : l.rows[i]? = some row) :
    row.tree.node = .mk (Rules.merge [] row.rules) [] :=
  node_tree (h.nonempty row (List.mem_of_getElem? hi))

theorem WellFormed.newTo_branchesAt (h : l.WellFormed) {row : Row} (hi : l.rows[i]? = some row) :
    NewTo (branchesAt l.rows i) row.tree := by
  constructor
  · unfold branchesAt
    rw [List.map_filterMap]
    refine List.pairwise_filterMap.2 (List.nodup_range.imp fun {j j'} hne => ?_)
    intro e he e' he' heq
    obtain ⟨b, hb, rfl⟩ := Option.map_eq_some_iff.1 he
    obtain ⟨b', hb', rfl⟩ := Option.map_eq_some_iff.1 he'
    exact hne (h.eq_of_hangsBy (branchAt?_eq_some_iff.1 hb).1 (branchAt?_eq_some_iff.1 hb').1 heq)
  · intro b _
    rw [RuleTree.branch?_eq_iff, h.rowTree_eq hi]
    rfl

theorem WellFormed.rules_treeAt (h : l.WellFormed) {row : Row} (hi : l.rows[i]? = some row) :
    (treeAt l.rows i).rules = Rules.merge [] row.rules := by
  rw [h.treeAt_eq hi, RuleTree.rules_putAll, RuleTree.rules, h.rowTree_eq hi]
  rfl

/-- **The branches of the tree at a row**: one for each row that hangs on it, labelled as that row says. -/
theorem WellFormed.branch?_treeAt_iff (h : l.WellFormed) {row : Row} (hi : l.rows[i]? = some row) {e : Edge}
    {b : Segment × RuleTree} :
    (treeAt l.rows i).branch? e = some b ↔ b.1.edge = e ∧ ∃ j, HangsBy l.rows j i b.1 ∧ b.2 = treeAt l.rows j := by
  have hnone : row.tree.branch? e = none := by
    rw [RuleTree.branch?_eq_iff, h.rowTree_eq hi]
    rfl
  rw [h.treeAt_eq hi, RuleTree.branch?_putAll_iff (h.newTo_branchesAt hi), hnone, mem_branchesAt]
  simp [and_comm]

end

/-! ## Counting rows -/

section

variable {l : Listing} {μ : RuleTree → Nat}

theorem sum_filterMap_range {β : Type} (f : Nat → Option β) (g : β → Nat) (n : Nat) :
    (((List.range n).filterMap f).map g).sum = ∑ j ∈ Finset.range n, ((f j).map g).getD 0 := by
  induction n with
  | zero => rfl
  | succ n ih =>
    rw [List.range_succ, List.filterMap_append, List.map_append, List.sum_append, ih, Finset.sum_range_succ]
    cases hf : f n <;> simp [hf]

theorem sum_map_eq_sum_range {α : Type} (f : α → Nat) (as : List α) :
    (as.map f).sum = ∑ i ∈ Finset.range as.length, (as[i]?.map f).getD 0 := by
  induction as with
  | nil => rfl
  | cons a as ih => simp [Finset.sum_range_succ', ih, add_comm]

/-- What a row adds to the tree above it. -/
def share (μ : RuleTree → Nat) (rows : List Row) (i j : Nat) : Nat := ((branchAt? rows i j).map fun b => μ b.2).getD 0

/-- An additive count of the tree at a row: of the row itself and of what hangs on it. -/
theorem WellFormed.count_treeAt (h : l.WellFormed) (hμ : Additive μ) {i : Nat} (hi : i < l.rows.length) :
    μ (treeAt l.rows i) =
      (l.rows[i]?.map fun row => μ row.tree).getD 0 + ∑ j ∈ Finset.range l.rows.length, share μ l.rows i j := by
  have hrow : l.rows[i]? = some l.rows[i] := List.getElem?_eq_getElem hi
  rw [h.treeAt_eq hrow, hμ.putAll (h.newTo_branchesAt hrow), branchesAt, sum_filterMap_range, hrow]
  rfl

/-- Every row but the first adds its tree to exactly one tree above it. -/
theorem WellFormed.sum_share (h : l.WellFormed) (μ : RuleTree → Nat) {j : Nat} (hj : j < l.rows.length) :
    ∑ i ∈ Finset.range l.rows.length, share μ l.rows i j = if j = 0 then 0 else μ (treeAt l.rows j) := by
  split
  · next hzero =>
    subst hzero
    refine Finset.sum_eq_zero fun i _ => ?_
    have hnone : branchAt? l.rows i 0 = none := by
      refine Option.eq_none_iff_forall_ne_some.2 fun b hb => ?_
      exact absurd (h.lt_of_hangsBy (branchAt?_eq_some_iff.1 hb).1) (Nat.not_lt_zero i)
    simp [share, hnone]
  · next hpos =>
    obtain ⟨p, s, hp, hlt⟩ := h.hangs hj (Nat.pos_of_ne_zero hpos)
    have hself : branchAt? l.rows p j = some (s, treeAt l.rows j) := branchAt?_eq_some_iff.2 ⟨hp, rfl⟩
    rw [Finset.sum_eq_single p]
    · simp [share, hself]
    · intro i _ hne
      have hnone : branchAt? l.rows i j = none := by
        refine Option.eq_none_iff_forall_ne_some.2 fun b hb => ?_
        obtain ⟨rules, hrow⟩ := (branchAt?_eq_some_iff.1 hb).1
        obtain ⟨rules', hrow'⟩ := hp
        cases hrow.symm.trans hrow'
        exact hne rfl
      simp [share, hnone]
    · intro hmem
      rw [Finset.mem_range] at hmem
      omega

/-- **An additive count of the tree of a listing** is the sum of the counts of its rows. -/
theorem WellFormed.additive_toTree (h : l.WellFormed) (hμ : Additive μ) :
    μ l.toTree = (l.rows.map fun row => μ row.tree).sum := by
  have hn := Nat.succ_pred_eq_of_pos h.length_pos
  have hcounts : ∑ i ∈ Finset.range l.rows.length, μ (treeAt l.rows i) =
      (l.rows.map fun row => μ row.tree).sum +
        ∑ j ∈ Finset.range l.rows.length, if j = 0 then 0 else μ (treeAt l.rows j) := by
    rw [sum_map_eq_sum_range, Finset.sum_congr rfl fun i hi => h.count_treeAt hμ (Finset.mem_range.1 hi),
      Finset.sum_add_distrib, Finset.sum_comm,
      Finset.sum_congr rfl fun j hj => h.sum_share μ (Finset.mem_range.1 hj)]
  rw [← hn, Finset.sum_range_succ', Finset.sum_range_succ'] at hcounts
  simp only [Nat.add_eq_zero_iff, one_ne_zero, and_false, if_false, if_true] at hcounts
  rw [h.toTree_eq]
  omega

end

end Listing

end AccessRules
