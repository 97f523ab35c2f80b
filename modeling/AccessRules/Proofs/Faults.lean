import AccessRules.Proofs.Rows

/-!
# Listings without faults

`fault?` looks for the first fault; it finds none exactly in the listings that are well-formed (`fault?_eq_none_iff`).
The listing of a tree is one of these (`wellFormed_ofTree`).
-/

namespace AccessRules

namespace Listing

/-- A row hangs on an earlier one. -/
def Linked (x : Row × Nat) : Prop := ∃ p s, x.1.parent = some p ∧ x.1.edge = some s ∧ p < x.2

/-- What a listing must be to be read as a tree. -/
structure WellFormed (l : Listing) : Prop where
  nodeCount : l.info.nodeCount = l.rows.length
  predicateCount : l.info.predicateCount = listedPredicates l.rows
  root : ∃ rules rest, l.rows = ⟨none, none, rules⟩ :: rest
  linked : ∀ x ∈ l.rows.tail.zipIdx 1, Linked x
  distinctEdges : (links l.rows).Nodup
  nonempty : ∀ row ∈ l.rows, ∀ r ∈ row.rules, r.2 ≠ []
  distinctCategories : ∀ row ∈ l.rows, (row.rules.map Prod.fst).Nodup
  needed : ∀ x ∈ l.rows.zipIdx, 0 < x.2 → x.1.rules = [] → ∃ row ∈ l.rows, row.parent = some x.2

/-! ## The checks one by one -/

theorem links_cons {row : Row} {p : Nat} {s : Segment} (hp : row.parent = some p) (hs : row.edge = some s)
    (rest : List Row) : links (row :: rest) = (p, s.edge) :: links rest := by
  simp [links, Row.link?, hp, hs]

theorem linkFault?_eq_none_iff {seen : List (Nat × Edge)} {index : Nat} {rows : List Row} :
    linkFault? seen index rows = none ↔
      (∀ x ∈ rows.zipIdx index, Linked x) ∧ (links rows).Nodup ∧ ∀ l ∈ links rows, l ∉ seen := by
  induction rows generalizing seen index with
  | nil => simp [linkFault?, links]
  | cons row rest ih =>
    rw [List.zipIdx_cons, List.forall_mem_cons]
    unfold linkFault?
    split
    · next p s hp hs =>
      have hlinked : Linked (row, index) ↔ p < index := by simp [Linked, hp, hs]
      rw [hlinked, links_cons hp hs, List.nodup_cons, List.forall_mem_cons]
      split
      · next hle =>
        refine iff_of_false (by simp) fun h => ?_
        omega
      split
      · next hmem => exact iff_of_false (by simp) fun h => h.2.2.1 hmem
      · next hle hmem =>
        rw [ih]
        constructor
        · rintro ⟨hrest, hnodup, hseen⟩
          refine ⟨⟨by omega, hrest⟩, ⟨fun h => hseen _ h List.mem_cons_self, hnodup⟩, hmem, fun l hl h => ?_⟩
          exact hseen l hl (List.mem_cons_of_mem _ h)
        · rintro ⟨⟨-, hrest⟩, ⟨hnew, hnodup⟩, -, hseen⟩
          refine ⟨hrest, hnodup, fun l hl h => ?_⟩
          rcases List.mem_cons.1 h with rfl | h
          · exact hnew hl
          · exact hseen l hl h
    · next hnone =>
      refine iff_of_false (by simp) fun h => ?_
      obtain ⟨p, s, hp, hs, -⟩ := h.1.1
      exact hnone p s hp hs

theorem ruleFault?_eq_none_iff {index : Nat} {seen : List Category} {rules : Rules} :
    ruleFault? index seen rules = none ↔
      (∀ r ∈ rules, r.2 ≠ []) ∧ (rules.map Prod.fst).Nodup ∧ ∀ r ∈ rules, r.1 ∉ seen := by
  induction rules generalizing seen with
  | nil => simp [ruleFault?]
  | cons r rest ih =>
    obtain ⟨c, ps⟩ := r
    rw [ruleFault?, List.forall_mem_cons, List.forall_mem_cons, List.map_cons, List.nodup_cons]
    split
    · next hps => exact iff_of_false (by simp) fun h => h.1.1 (List.isEmpty_iff.1 hps)
    split
    · next hmem => exact iff_of_false (by simp) fun h => h.2.2.1 hmem
    · next hps hmem =>
      rw [ih]
      constructor
      · rintro ⟨hne, hnodup, hseen⟩
        refine ⟨⟨fun h => hps (List.isEmpty_iff.2 h), hne⟩, ⟨fun h => ?_, hnodup⟩, hmem, fun r hr h => ?_⟩
        · obtain ⟨r, hr, rfl⟩ := List.mem_map.1 h
          exact hseen r hr List.mem_cons_self
        · exact hseen r hr (List.mem_cons_of_mem _ h)
      · rintro ⟨⟨-, hne⟩, ⟨hnew, hnodup⟩, -, hseen⟩
        refine ⟨hne, hnodup, fun r hr h => ?_⟩
        rcases List.mem_cons.1 h with hc | h
        · exact hnew (List.mem_map.2 ⟨r, hr, hc⟩)
        · exact hseen r hr h

theorem hasChild_iff {rows : List Row} {index : Nat} :
    hasChild rows index = true ↔ ∃ row ∈ rows, row.parent = some index := by
  simp [hasChild]

theorem contentFault?_eq_none_iff {all rows : List Row} {index : Nat} :
    contentFault? all index rows = none ↔
      (∀ row ∈ rows, ∀ r ∈ row.rules, r.2 ≠ []) ∧ (∀ row ∈ rows, (row.rules.map Prod.fst).Nodup) ∧
        ∀ x ∈ rows.zipIdx index, 0 < x.2 → x.1.rules = [] → ∃ row ∈ all, row.parent = some x.2 := by
  induction rows generalizing index with
  | nil => simp [contentFault?]
  | cons row rest ih =>
    have hneeded : (0 < index && row.rules.isEmpty && !hasChild all index) = true ↔
        ¬ (0 < index → row.rules = [] → ∃ row ∈ all, row.parent = some index) := by
      rw [← hasChild_iff]
      simp [and_assoc]
    rw [contentFault?, Option.or_eq_none_iff, ruleFault?_eq_none_iff, List.zipIdx_cons, List.forall_mem_cons,
      List.forall_mem_cons, List.forall_mem_cons]
    split
    · next h =>
      rw [hneeded] at h
      exact iff_of_false (by simp) fun h' => h h'.2.2.1
    · next h =>
      rw [hneeded, Classical.not_not] at h
      rw [ih]
      simp only [List.not_mem_nil, not_false_eq_true, implies_true, and_true]
      exact ⟨fun ⟨⟨h1, h2⟩, h3, h4, h5⟩ => ⟨⟨h1, h3⟩, ⟨h2, h4⟩, h, h5⟩,
        fun ⟨⟨h1, h3⟩, ⟨h2, h4⟩, _, h5⟩ => ⟨⟨h1, h2⟩, h3, h4, h5⟩⟩

/-- **A listing is without faults exactly if it is well-formed.** -/
theorem fault?_eq_none_iff {l : Listing} : l.fault? = none ↔ l.WellFormed := by
  obtain ⟨info, rows⟩ := l
  unfold fault?
  split
  · next h => exact iff_of_false (by simp) fun hl => h hl.nodeCount
  split
  · next h => exact iff_of_false (by simp) fun hl => h hl.predicateCount
  next hnodes hpredicates =>
  cases rows with
  | nil =>
    refine iff_of_false (by simp) fun hl => ?_
    obtain ⟨_, _, hroot⟩ := hl.root
    cases hroot
  | cons root rest =>
    obtain ⟨parent, edge, rules⟩ := root
    dsimp only
    split
    · next h =>
      refine iff_of_false (by simp) fun hl => ?_
      obtain ⟨_, _, hroot⟩ := hl.root
      cases hroot
      cases h
    · next h =>
      obtain ⟨rfl, rfl⟩ : parent = none ∧ edge = none := by simpa using h
      rw [Option.or_eq_none_iff, linkFault?_eq_none_iff, contentFault?_eq_none_iff]
      constructor
      · rintro ⟨⟨hlinked, hedges, -⟩, hnonempty, hcategories, hneeded⟩
        exact ⟨Decidable.not_not.1 hnodes, Decidable.not_not.1 hpredicates, ⟨rules, rest, rfl⟩, hlinked, hedges,
          hnonempty, hcategories, hneeded⟩
      · intro hl
        exact ⟨⟨hl.linked, hl.distinctEdges, fun _ _ => List.not_mem_nil⟩, hl.nonempty, hl.distinctCategories,
          hl.needed⟩

/-! ## The listing of a tree -/

theorem nodup_categories {rules : Rules} (h : rules.Ordered) : (rules.map Prod.fst).Nodup := by
  refine List.pairwise_map.2 (h.categories.imp fun {r r'} hlt heq => ?_)
  rw [heq, Std.compare_self] at hlt
  cases hlt

/-- **The listing of a tree is well-formed.** -/
theorem wellFormed_ofTree (t : RuleTree) (source : Option String) : (ofTree t source).WellFormed := by
  have hp := RuleTree.pruned_prune t
  have hrows : (ofTree t source).rows =
      ⟨none, none, t.prune.node.rules⟩ :: rowsBelow 0 1 t.prune.node.branches := rowsOf_eq 0 none none t.prune.node
  have hrules : ∀ row ∈ (ofTree t source).rows, row.rules.Ordered ∧ ∀ r ∈ row.rules, r.2 ≠ [] := by
    rw [hrows, List.forall_mem_cons]
    refine ⟨⟨t.prune.rules_ordered, hp.rules⟩, fun row hrow => ?_⟩
    obtain ⟨i, hx⟩ := exists_mem_zipIdx hrow 1
    have hsound := sound_of_mem hp.kept hx
    exact ⟨hsound.ordered, hsound.nonempty⟩
  refine ⟨rfl, (listedPredicates_rowsOf 0 none none t.prune.node).symm, ⟨_, _, hrows⟩, ?_, ?_,
    fun row hrow => (hrules row hrow).2, fun row hrow => nodup_categories (hrules row hrow).1, ?_⟩
  · rw [hrows]
    intro x hx
    obtain ⟨p, s, hparent, hedge, hlt, -⟩ := hangs_of_mem Nat.one_pos hx
    exact ⟨p, s, hparent, hedge, hlt⟩
  · rw [hrows]
    exact nodup_links Nat.one_pos t.prune.ordered.ascending t.prune.ordered.subtree
  · rw [hrows, List.zipIdx_cons, List.forall_mem_cons]
    refine ⟨fun h => absurd h (Nat.lt_irrefl 0), fun x hx _ hr => ?_⟩
    obtain ⟨row, hrow, hparent⟩ := (sound_of_mem hp.kept hx).needed hr
    exact ⟨row, List.mem_cons_of_mem _ hrow, hparent⟩

end Listing

end AccessRules
