import AccessRules.Proofs.Assembly
import AccessRules.Proofs.Facts

/-!
# The tree that a listing describes

A row stands for the place to which its chain leads: the segments of the rows on which it hangs, from the top down, and
its own (`Chain`). A listing describes a tree (`Describes`) if the tree has as many nodes as there are rows, at the end
of every chain the rules of its row, with the listed names of captures on the way, and no node that is not at the end of
a chain. A well-formed listing describes its tree (`describes_toTree`), and this tree is pruned (`pruned_toTree`).
-/

namespace AccessRules

namespace RuleTree

/-- The path leads from one tree to the other along branches that are labelled with exactly its segments. -/
inductive Walks : RuleTree → Path → RuleTree → Prop
  | here (t : RuleTree) : Walks t [] t
  | there {t u v : RuleTree} {s : Segment} {p : Path} : t.branch? s.edge = some (s, u) → Walks u p v →
      Walks t (s :: p) v

theorem Walks.snoc {t u v : RuleTree} {p : Path} {s : Segment} (h : Walks t p u) (hs : u.branch? s.edge = some (s, v)) :
    Walks t (p ++ [s]) v := by
  induction h with
  | here t => exact .there hs (.here v)
  | there hb _ ih => exact .there hb (ih hs)

end RuleTree

namespace Listing

open RuleTree (Walks Pruned)

/-! ## Chains -/

/-- The segments that lead from the first row to the row at a position: those of the rows on which it hangs, from the
top down, and its own. -/
inductive Chain (rows : List Row) : Nat → Path → Prop
  | root : Chain rows 0 []
  | step {i p : Nat} {s : Segment} {path : Path} : Chain rows p path → HangsBy rows i p s → Chain rows i (path ++ [s])

section

variable {l : Listing} {i j : Nat} {p q : Path}

theorem WellFormed.row_of_chain (h : l.WellFormed) (hc : Chain l.rows i p) : ∃ row, l.rows[i]? = some row := by
  cases hc with
  | root =>
    obtain ⟨rules, hroot⟩ := h.root_eq
    exact ⟨_, hroot⟩
  | step _ hs =>
    obtain ⟨rules, hrow⟩ := hs
    exact ⟨_, hrow⟩

/-- Every row has a chain, since it hangs on an earlier one. -/
theorem WellFormed.exists_chain (h : l.WellFormed) (hi : i < l.rows.length) : ∃ path, Chain l.rows i path := by
  induction i using Nat.strongRecOn with
  | ind i ih =>
    rcases Nat.eq_zero_or_pos i with rfl | hpos
    · exact ⟨[], .root⟩
    · obtain ⟨p, s, hs, hlt⟩ := h.hangs hi hpos
      obtain ⟨path, hpath⟩ := ih p hlt (by omega)
      exact ⟨path ++ [s], .step hpath hs⟩

theorem WellFormed.chain_zero (h : l.WellFormed) (hc : Chain l.rows 0 p) : p = [] := by
  cases hc with
  | root => rfl
  | step _ hs => exact absurd (h.lt_of_hangsBy hs) (Nat.not_lt_zero _)

theorem WellFormed.chain_unique (h : l.WellFormed) (hp : Chain l.rows i p) (hq : Chain l.rows i q) : p = q := by
  induction hp generalizing q with
  | root => exact (h.chain_zero hq).symm
  | step _ hs ih =>
    cases hq with
    | root => exact absurd (h.lt_of_hangsBy hs) (Nat.not_lt_zero _)
    | step hq' hs' =>
      obtain ⟨rules, hrow⟩ := hs
      obtain ⟨rules', hrow'⟩ := hs'
      cases hrow.symm.trans hrow'
      rw [ih hq']

/-- Chains of two rows do not lead to the same place. -/
theorem WellFormed.chain_injective (h : l.WellFormed) (hp : Chain l.rows i p) (hq : Chain l.rows j q)
    (heq : p.edges = q.edges) : i = j := by
  induction hp generalizing j q with
  | root =>
    cases hq with
    | root => rfl
    | step _ _ => simp [Path.edges] at heq
  | step _ hs ih =>
    cases hq with
    | root => simp [Path.edges] at heq
    | step hq' hs' =>
      simp only [Path.edges, List.map_append, List.map_cons, List.map_nil] at heq
      obtain ⟨hpath, hedge⟩ := List.append_inj' heq rfl
      obtain rfl := ih hq' hpath
      exact h.eq_of_hangsBy hs hs' (by simpa using hedge)

/-! ## What stands at the end of a chain -/

theorem WellFormed.walks_of_chain (h : l.WellFormed) (hc : Chain l.rows i p) :
    Walks l.toTree p (treeAt l.rows i) := by
  rw [h.toTree_eq]
  induction hc with
  | root => exact .here _
  | step hpath hs ih =>
    obtain ⟨row, hrow⟩ := h.row_of_chain hpath
    exact ih.snoc ((h.branch?_treeAt_iff hrow).2 ⟨rfl, _, hs, rfl⟩)

/-- From the tree at a row, paths lead only to trees at rows. -/
theorem WellFormed.chain_of_get? (h : l.WellFormed) (hc : Chain l.rows i p) {u : RuleTree}
    (hu : (treeAt l.rows i).get? q = some u) :
    ∃ j chain, Chain l.rows j chain ∧ chain.edges = (p ++ q).edges ∧ u = treeAt l.rows j := by
  induction q generalizing i p with
  | nil =>
    cases hu
    exact ⟨i, p, hc, by rw [List.append_nil], rfl⟩
  | cons s q ih =>
    rw [RuleTree.get?_cons] at hu
    obtain ⟨b, hb, hu⟩ := Option.bind_eq_some_iff.1 hu
    obtain ⟨row, hrow⟩ := h.row_of_chain hc
    obtain ⟨hedge, j, hs, htree⟩ := (h.branch?_treeAt_iff hrow).1 hb
    rw [htree] at hu
    obtain ⟨j', chain, hchain, hedges, hu⟩ := ih (.step hc hs) hu
    refine ⟨j', chain, hchain, ?_, hu⟩
    rw [hedges]
    simp [Path.edges, hedge]

end

/-! ## Listings describe trees -/

/-- The rules are those that a row lists: its categories, each with the set of the predicates listed for it. -/
def Row.Lists (row : Row) (rules : Rules) : Prop :=
  (∀ c, (rules.find? c).isSome = true ↔ c ∈ row.rules.map Prod.fst) ∧
    ∀ c ps, (c, ps) ∈ row.rules → ∃ held, rules.find? c = some held ∧ ∀ p, p ∈ held ↔ p ∈ ps

theorem Row.lists_merge {row : Row} (h : (row.rules.map Prod.fst).Nodup) : row.Lists (Rules.merge [] row.rules) := by
  have hfind : ∀ c held, (Rules.merge [] row.rules).find? c = some held ↔
      ∃ ps, (c, ps) ∈ row.rules ∧ held = Predicates.ofList ps := by
    intro c held
    have hnone : Rules.find? [] c ≠ some held := by simp [Rules.find?]
    rw [Rules.find?_merge_of_nodup Rules.ordered_nil h fun _ _ => rfl]
    exact or_iff_right hnone
  constructor
  · intro c
    simp only [Option.isSome_iff_exists, hfind, List.mem_map]
    constructor
    · rintro ⟨_, ps, hps, rfl⟩
      exact ⟨(c, ps), hps, rfl⟩
    · rintro ⟨⟨c', ps⟩, hps, rfl⟩
      exact ⟨_, ps, hps, rfl⟩
  · intro c ps hps
    exact ⟨Predicates.ofList ps, (hfind c _).2 ⟨ps, hps, rfl⟩, fun p => Predicates.mem_ofList⟩

/-- Rows describe a tree by their chains. -/
structure Describes (rows : List Row) (t : RuleTree) : Prop where
  size : t.size = rows.length
  /-- Each row has one chain. -/
  chain : ∀ i row, rows[i]? = some row → ∃! path, Chain rows i path
  /-- At its end, reached by exactly the listed segments, stands what the row lists. -/
  row : ∀ i row path, rows[i]? = some row → Chain rows i path → ∃ u, t.Walks path u ∧ row.Lists u.rules
  /-- Each node of the tree is at the end of the chain of exactly one row. -/
  node : ∀ path u, t.get? path = some u →
    ∃! i, ∃ chain, Chain rows i chain ∧ chain.same path = true ∧ t.Walks chain u

variable {l : Listing}

theorem WellFormed.size_toTree (h : l.WellFormed) : l.toTree.size = l.rows.length := by
  have hone : ∀ row ∈ l.rows, row.tree.size = 1 := by
    intro row hrow
    obtain ⟨i, hi⟩ := List.getElem?_of_mem hrow
    rw [RuleTree.size_eq_sum, h.rowTree_eq hi]
    rfl
  rw [h.additive_toTree RuleTree.additive_size, List.map_congr_left hone, List.map_const', List.sum_replicate_nat,
    Nat.mul_one]

/-- **A well-formed listing describes its tree.** -/
theorem WellFormed.describes_toTree (h : l.WellFormed) : Describes l.rows l.toTree where
  size := h.size_toTree
  chain i row hi := by
    obtain ⟨path, hpath⟩ := h.exists_chain (List.getElem?_eq_some_iff.1 hi).1
    exact ⟨path, hpath, fun _ hpath' => h.chain_unique hpath' hpath⟩
  row i row path hi hpath := by
    refine ⟨treeAt l.rows i, h.walks_of_chain hpath, ?_⟩
    rw [h.rules_treeAt hi]
    exact Row.lists_merge (h.distinctCategories row (List.mem_of_getElem? hi))
  node path u hu := by
    rw [h.toTree_eq] at hu
    obtain ⟨i, chain, hchain, hedges, rfl⟩ := h.chain_of_get? .root hu
    refine ⟨i, ⟨chain, hchain, Path.same_iff.2 hedges, h.walks_of_chain hchain⟩, ?_⟩
    rintro j ⟨chain', hchain', hsame, -⟩
    exact h.chain_injective hchain' hchain ((Path.same_iff.1 hsame).trans hedges.symm)

/-! ## The tree is pruned -/

/-- A rule that the row lists with some predicate has it in the tree. -/
theorem WellFormed.ne_nil_of_find? (h : l.WellFormed) {row : Row} (hrow : row ∈ l.rows) {c : Category}
    {held : Predicates} (hc : (Rules.merge [] row.rules).find? c = some held) : held ≠ [] := by
  have hlists := Row.lists_merge (h.distinctCategories row hrow)
  have hsome : ((Rules.merge [] row.rules).find? c).isSome = true := by simp [hc]
  obtain ⟨⟨c', ps⟩, hr, rfl⟩ := List.mem_map.1 ((hlists.1 c).1 hsome)
  obtain ⟨held', hheld', hmem⟩ := hlists.2 c' ps hr
  cases hc.symm.trans hheld'
  obtain ⟨p, rest, rfl⟩ := List.exists_cons_of_ne_nil (h.nonempty row hrow _ hr)
  exact List.ne_nil_of_mem ((hmem p).2 List.mem_cons_self)

/-- The tree at a row is not empty if the row has rules or another one hangs on it. -/
theorem WellFormed.isEmpty_treeAt (h : l.WellFormed) {i : Nat} {row : Row} (hi : l.rows[i]? = some row) (hpos : 0 < i) :
    (treeAt l.rows i).isEmpty = false := by
  cases hrules : row.rules with
  | nil =>
    have hx : (row, i) ∈ l.rows.zipIdx := List.mk_mem_zipIdx_iff_getElem?.2 hi
    obtain ⟨child, hchild, hparent⟩ := h.needed (row, i) hx hpos hrules
    obtain ⟨j, hj⟩ := List.getElem?_of_mem hchild
    have hjpos : 0 < j := by
      refine Nat.pos_of_ne_zero ?_
      rintro rfl
      obtain ⟨rules, hroot⟩ := h.root_eq
      cases hroot.symm.trans hj
      cases hparent
    obtain ⟨p, s, hs, -⟩ := h.hangs (List.getElem?_eq_some_iff.1 hj).1 hjpos
    obtain ⟨rules, hrow⟩ := hs
    cases hrow.symm.trans hj
    cases hparent
    exact RuleTree.isEmpty_eq_false_of_branch
      ((h.branch?_treeAt_iff hi (b := (s, treeAt l.rows j))).2 ⟨rfl, j, ⟨rules, hrow⟩, rfl⟩)
  | cons r rest =>
    have hmem : row ∈ l.rows := List.mem_of_getElem? hi
    obtain ⟨held, hheld, -⟩ := (Row.lists_merge (h.distinctCategories row hmem)).2 r.1 r.2 (by simp [hrules])
    refine Bool.eq_false_iff.2 fun hempty => ?_
    have hvoid := (RuleTree.isEmpty_iff.1 hempty).1
    rw [h.rules_treeAt hi, Rules.isVoid_iff_find? (Rules.ordered_nil.merge _)] at hvoid
    have hnil := hvoid r.1
    rw [hheld] at hnil
    exact h.ne_nil_of_find? hmem hheld hnil

theorem WellFormed.pruned_treeAt (h : l.WellFormed) {i : Nat} {row : Row} (hi : l.rows[i]? = some row) :
    (treeAt l.rows i).Pruned := by
  induction hm : l.rows.length - i using Nat.strongRecOn generalizing i row with
  | ind m ih =>
    have hbranch : ∀ e b, (treeAt l.rows i).branch? e = some b → b.2.isEmpty = false ∧ b.2.Pruned := by
      intro e b hb
      obtain ⟨-, j, hs, htree⟩ := (h.branch?_treeAt_iff hi).1 hb
      have hlt := h.lt_of_hangsBy hs
      have hlen := hs.lt_length
      obtain ⟨rules, hj⟩ := hs
      rw [htree]
      exact ⟨h.isEmpty_treeAt hj (by omega), ih _ (by omega) hj rfl⟩
    refine .mk ?_ (fun e b hb => (hbranch e b hb).1) fun e b hb => (hbranch e b hb).2
    rw [h.rules_treeAt hi]
    intro r hr
    refine h.ne_nil_of_find? (List.mem_of_getElem? hi) (c := r.1) ?_
    exact (Rules.find?_eq_some_iff (Rules.ordered_nil.merge _)).2 hr

/-- **The tree of a well-formed listing is pruned.** -/
theorem WellFormed.pruned_toTree (h : l.WellFormed) : l.toTree.Pruned := by
  obtain ⟨rules, hroot⟩ := h.root_eq
  rw [h.toTree_eq]
  exact h.pruned_treeAt hroot

end Listing

end AccessRules
