import AccessRules.Proofs.Chains
import AccessRules.Proofs.RoundTrip
import Mathlib.Algebra.Order.BigOperators.Group.List

/-!
# Loaded trees

A blob is accepted exactly if it holds a well-formed listing, and it is loaded as the tree of this listing
(`ofBytes_eq_ok_iff`), whoever wrote it and in whatever order the rows stand. So:

* a loaded tree is the one that the rows describe by their chains, it is pruned, and stored again it comes back
  (`ofBytes_describes`);
* what is told beside the rows is its number of nodes, and the number of the *listed* predicates. A rule that lists a
  predicate twice is no fault but its set holds the predicate once, so a blob may tell of more predicates than its tree
  has (`ofBytes_info`).
-/

namespace AccessRules

/-- **What is accepted**: a well-formed listing, as its tree. -/
theorem RuleTree.ofBytes_eq_ok_iff {bytes : Bytes} {t : RuleTree} :
    RuleTree.ofBytes bytes = .ok t ↔ ∃ l, Blob.listing bytes = .ok l ∧ l.WellFormed ∧ l.toTree = t := by
  unfold RuleTree.ofBytes
  cases Blob.listing bytes with
  | error e => simp
  | ok l =>
    simp only [Except.ok.injEq, exists_eq_left', ← Listing.fault?_eq_none_iff]
    cases l.fault? <;> simp

/-- The blob of a well-formed listing is accepted if it is short. -/
theorem RuleTree.ofBytes_ofListing {l : Listing} (hl : l.WellFormed) (h : (Payload.write l).length < 2 ^ 32) :
    RuleTree.ofBytes (Blob.ofListing l) = .ok l.toTree :=
  RuleTree.ofBytes_eq_ok_iff.2 ⟨l, Blob.listing_ofListing hl h, hl, rfl⟩

/-- A stored tree is accepted if its payload is short, and loaded as it was pruned. -/
theorem RuleTree.ofBytes_eq_prune {t : RuleTree} {source : Option String}
    (h : (Payload.write (Listing.ofTree t source)).length < 2 ^ 32) :
    RuleTree.ofBytes (t.toBytes source) = .ok t.prune := by
  rw [← Listing.toTree_ofTree t source]
  exact RuleTree.ofBytes_ofListing (Listing.wellFormed_ofTree t source) h

theorem TreeInfo.ofBytes_of_listing {bytes : Bytes} {l : Listing} (h : Blob.listing bytes = .ok l) :
    TreeInfo.ofBytes bytes = .ok l.info := by
  unfold TreeInfo.ofBytes
  rw [h]

/-! ## The tree -/

/-- **Loaded trees are as their blobs list them**: by the chains of the rows, in whatever order these stand. They are
pruned, and come back when they are stored again. -/
theorem ofBytes_describes {bytes : Bytes} {t : RuleTree} (h : RuleTree.ofBytes bytes = .ok t) :
    (∃ l, Blob.listing bytes = .ok l ∧ Listing.Describes l.rows t) ∧ t.Pruned ∧
      ∀ source, (Payload.write (Listing.ofTree t source)).length < 2 ^ 32 →
        RuleTree.ofBytes (t.toBytes source) = .ok t := by
  obtain ⟨l, hl, hwf, rfl⟩ := RuleTree.ofBytes_eq_ok_iff.1 h
  have hpruned := hwf.pruned_toTree
  refine ⟨⟨l, hl, hwf.describes_toTree⟩, hpruned, ?_⟩
  intro source hlen
  rw [RuleTree.ofBytes_eq_ok_iff]
  refine ⟨Listing.ofTree l.toTree source, Blob.listing_toBytes hlen, Listing.wellFormed_ofTree _ _, ?_⟩
  rw [Listing.toTree_ofTree, RuleTree.prune_eq_self hpruned]

/-- Rows level by level, with those of two parents mixed, rules out of order and a predicate listed twice. -/
theorem ofBytes_describes_of_mixed_rows :
    let rows : List Listing.Row :=
      [⟨none, none, []⟩,
        ⟨some 0, some (.literal "b"), [(.write, [⟨"q"⟩, ⟨"p"⟩, ⟨"q"⟩]), (.read, [⟨"p"⟩])]⟩,
        ⟨some 0, some (.capture "id"), []⟩,
        ⟨some 1, some (.capture "x"), [(.read, [⟨"p"⟩])]⟩,
        ⟨some 2, some (.literal "a"), [(.read, [⟨"p"⟩])]⟩,
        ⟨some 1, some (.literal "a"), [(.read, [⟨"p"⟩])]⟩,
        ⟨some 0, some (.literal "a"), [(.delete, [⟨"p"⟩])]⟩]
    let leaf := RuleTree.empty.add .read ⟨"p"⟩
    let b := ((((leaf.add .write ⟨"p"⟩).add .write ⟨"q"⟩).attach (.literal "a") leaf).attach (.capture "x") leaf)
    let t := ((RuleTree.empty.attach (.literal "a") (RuleTree.empty.add .delete ⟨"p"⟩)).attach (.literal "b") b).attach
      (.capture "id") (RuleTree.empty.attach (.literal "a") leaf)
    let bytes := Blob.ofListing ⟨⟨7, 8, none⟩, rows⟩
    RuleTree.ofBytes bytes = .ok t ∧ (∃ l, Blob.listing bytes = .ok l ∧ Listing.Describes l.rows t) ∧ t.Pruned ∧
      RuleTree.ofBytes (t.toBytes none) = .ok t := by
  intro rows leaf b t bytes
  have hwf : Listing.WellFormed ⟨⟨7, 8, none⟩, rows⟩ := Listing.fault?_eq_none_iff.1 (by decide)
  have hloads : RuleTree.ofBytes bytes = .ok t := RuleTree.ofBytes_ofListing hwf (by decide)
  obtain ⟨hdescribes, hpruned, hagain⟩ := ofBytes_describes hloads
  exact ⟨hloads, hdescribes, hpruned, hagain none (by decide)⟩

/-! ## What is told beside -/

theorem sum_eq_sum_iff {α : Type} {f g : α → Nat} {as : List α} (h : ∀ a ∈ as, f a ≤ g a) :
    (as.map f).sum = (as.map g).sum ↔ ∀ a ∈ as, f a = g a := by
  induction as with
  | nil => simp
  | cons a as ih =>
    obtain ⟨ha, has⟩ := List.forall_mem_cons.1 h
    have hle : (as.map f).sum ≤ (as.map g).sum := List.sum_le_sum has
    rw [List.forall_mem_cons, ← ih has, List.map_cons, List.map_cons, List.sum_cons, List.sum_cons]
    omega

namespace Listing

theorem listedPredicates_eq_sum (rows : List Row) :
    listedPredicates rows = (rows.map fun row => row.rules.count).sum := by
  induction rows with
  | nil => rfl
  | cons row rest ih => rw [listedPredicates, ih, List.map_cons, List.sum_cons]

variable {l : Listing}

/-- A row by itself has the predicates of its rules, each once. -/
theorem WellFormed.predicateCount_tree (h : l.WellFormed) {row : Row} (hrow : row ∈ l.rows) :
    row.tree.predicateCount = (row.rules.map fun r => (Predicates.ofList r.2).length).sum := by
  obtain ⟨i, hi⟩ := List.getElem?_of_mem hrow
  have hcount : (Rules.merge [] row.rules).count = (row.rules.map fun r => (Predicates.ofList r.2).length).sum := by
    rw [Rules.count_merge (h.distinctCategories row hrow) fun _ _ => rfl, Rules.count, Nat.zero_add]
  rw [RuleTree.predicateCount_eq_sum, RuleTree.rules, h.rowTree_eq hi, ← hcount]
  rfl

theorem WellFormed.predicateCount_tree_le (h : l.WellFormed) {row : Row} (hrow : row ∈ l.rows) :
    row.tree.predicateCount ≤ row.rules.count := by
  rw [h.predicateCount_tree hrow, Rules.count_eq_sum]
  exact List.sum_le_sum fun r _ => Predicates.length_ofList_le r.2

theorem WellFormed.predicateCount_tree_eq_iff (h : l.WellFormed) {row : Row} (hrow : row ∈ l.rows) :
    row.tree.predicateCount = row.rules.count ↔ ∀ r ∈ row.rules, r.2.Nodup := by
  rw [h.predicateCount_tree hrow, Rules.count_eq_sum,
    sum_eq_sum_iff fun r _ => Predicates.length_ofList_le r.2]
  exact forall₂_congr fun r _ => Predicates.length_ofList_eq_iff

/-- The tree of a listing has no more predicates than are listed. -/
theorem WellFormed.predicateCount_toTree_le (h : l.WellFormed) : l.toTree.predicateCount ≤ l.info.predicateCount := by
  rw [h.additive_toTree RuleTree.additive_predicateCount, h.predicateCount, listedPredicates_eq_sum]
  exact List.sum_le_sum fun row hrow => h.predicateCount_tree_le hrow

/-- It has as many only if no rule lists a predicate twice. -/
theorem WellFormed.predicateCount_toTree_eq_iff (h : l.WellFormed) :
    l.toTree.predicateCount = l.info.predicateCount ↔ ∀ row ∈ l.rows, ∀ r ∈ row.rules, r.2.Nodup := by
  rw [h.additive_toTree RuleTree.additive_predicateCount, h.predicateCount, listedPredicates_eq_sum,
    sum_eq_sum_iff fun row hrow => h.predicateCount_tree_le hrow]
  exact forall₂_congr fun row hrow => h.predicateCount_tree_eq_iff hrow

end Listing

/-- **What is told of a loaded tree**: the number of its nodes, and the number of the predicates that are listed. It has
no more predicates than that, and as many exactly if no rule lists a predicate twice. -/
theorem ofBytes_info {bytes : Bytes} {t : RuleTree} (h : RuleTree.ofBytes bytes = .ok t) :
    ∃ l, Blob.listing bytes = .ok l ∧ TreeInfo.ofBytes bytes = .ok l.info ∧ l.info.nodeCount = t.size ∧
      t.predicateCount ≤ l.info.predicateCount ∧
        (t.predicateCount = l.info.predicateCount ↔ ∀ row ∈ l.rows, ∀ r ∈ row.rules, r.2.Nodup) := by
  obtain ⟨l, hl, hwf, rfl⟩ := RuleTree.ofBytes_eq_ok_iff.1 h
  refine ⟨l, hl, TreeInfo.ofBytes_of_listing hl, ?_, hwf.predicateCount_toTree_le, hwf.predicateCount_toTree_eq_iff⟩
  rw [hwf.nodeCount, hwf.size_toTree]

/-- A rule that lists a predicate twice. -/
theorem ofBytes_info_of_repeat :
    let listing : Listing := ⟨⟨1, 2, none⟩, [⟨none, none, [(.read, [⟨"p"⟩, ⟨"p"⟩])]⟩]⟩
    let bytes := Blob.ofListing listing
    let t := RuleTree.empty.add .read ⟨"p"⟩
    RuleTree.ofBytes bytes = .ok t ∧
      ∃ l, Blob.listing bytes = .ok l ∧ TreeInfo.ofBytes bytes = .ok l.info ∧ l.info.nodeCount = t.size ∧
        t.predicateCount ≤ l.info.predicateCount ∧
          (t.predicateCount = l.info.predicateCount ↔ ∀ row ∈ l.rows, ∀ r ∈ row.rules, r.2.Nodup) := by
  intro listing bytes t
  have hwf : listing.WellFormed := Listing.fault?_eq_none_iff.1 (by decide)
  have hloads : RuleTree.ofBytes bytes = .ok t := RuleTree.ofBytes_ofListing hwf (by decide)
  exact ⟨hloads, ofBytes_info hloads⟩

/-- So the two numbers of predicates need not agree. -/
theorem predicateCount_disagrees :
    ¬ ∀ bytes t, RuleTree.ofBytes bytes = .ok t →
      ∃ info, TreeInfo.ofBytes bytes = .ok info ∧ info.nodeCount = t.size ∧
        info.predicateCount = t.predicateCount := by
  intro hagree
  let listing : Listing := ⟨⟨1, 2, none⟩, [⟨none, none, [(.read, [⟨"p"⟩, ⟨"p"⟩])]⟩]⟩
  have hwf : listing.WellFormed := Listing.fault?_eq_none_iff.1 (by decide)
  have hlen : (Payload.write listing).length < 2 ^ 32 := by decide
  obtain ⟨info, hinfo, -, hcount⟩ := hagree _ _ (RuleTree.ofBytes_ofListing hwf hlen)
  have htold := TreeInfo.ofBytes_of_listing (Blob.listing_ofListing hwf hlen)
  obtain rfl : info = listing.info := Except.ok.inj (hinfo.symm.trans htold)
  exact absurd hcount (by decide)

end AccessRules
