import AccessRules.Tree.Node

/-!
# The order of a node

A node is in order when its rules are, its branches ascend by edge, and every node below is in order. Such a node has
one form for what it holds. Each operation on nodes keeps the order.
-/

namespace AccessRules.Node

/-- Rules are in order, branches ascend by edge, and so it is at every node below. -/
inductive Ordered : Node → Prop
  | mk {rules : Rules} {branches : Branches} : rules.Ordered → Keyed.Ascending branchEdge branches →
      (∀ b ∈ branches, Ordered b.2) → Ordered (.mk rules branches)

theorem Ordered.rules {t : Node} : t.Ordered → t.rules.Ordered
  | .mk h _ _ => h

theorem Ordered.ascending {t : Node} : t.Ordered → Keyed.Ascending branchEdge t.branches
  | .mk _ h _ => h

theorem Ordered.subtree {t : Node} : t.Ordered → ∀ b ∈ t.branches, b.2.Ordered
  | .mk _ _ h => h

theorem ordered_empty : empty.Ordered := .mk Rules.ordered_nil .nil fun _ h => nomatch h

theorem Ordered.getD_empty {o : Option Node} (h : ∀ c ∈ o, c.Ordered) : (o.getD empty).Ordered := by
  cases o with
  | none => exact ordered_empty
  | some c => exact h c rfl

theorem Ordered.child? {t c : Node} (h : t.Ordered) {s : Segment} (hc : t.child? s = some c) : c.Ordered := by
  obtain ⟨b, hb, rfl⟩ := Option.map_eq_some_iff.1 hc
  exact h.subtree b (Keyed.mem_of_find? hb)

theorem Ordered.get? {t c : Node} (h : t.Ordered) : ∀ {p : Path}, t.get? p = some c → c.Ordered
  | [], hc => by cases hc; exact h
  | s :: p, hc => by
    unfold Node.get? at hc
    split at hc
    · cases hc
    · next hs => exact Ordered.get? (h.child? hs) hc

theorem keepsKey_alterBranch (s : Segment) (f : Option Node → Option Node) :
    Keyed.KeepsKey branchEdge s.edge fun old : Option (Segment × Node) =>
      (f (old.map Prod.snd)).map fun c => ((old.map Prod.fst).getD s, c) := by
  intro o ho a ha
  obtain ⟨c, -, rfl⟩ := Option.map_eq_some_iff.1 ha
  cases o with
  | none => rfl
  | some b => exact ho b rfl

/-- Changing one branch keeps the order if what takes the place of an ordered node is ordered. -/
theorem Ordered.alterBranch {rules : Rules} {branches : Branches} (h : (Node.mk rules branches).Ordered) (s : Segment)
    {f : Option Node → Option Node} (hf : ∀ o, (∀ c ∈ o, c.Ordered) → ∀ c ∈ f o, c.Ordered) :
    (Node.mk rules (alterBranch s f branches)).Ordered := by
  have hasc := Keyed.ascending_alter (keepsKey_alterBranch s f) h.ascending
  refine .mk h.rules hasc fun b hb => ?_
  have hb := (Keyed.find?_eq_some_iff hasc).2 ⟨hb, rfl⟩
  by_cases hs : branchEdge b = s.edge
  · rw [hs, Keyed.find?_alter_self (keepsKey_alterBranch s f) h.ascending] at hb
    obtain ⟨c, hc, rfl⟩ := Option.map_eq_some_iff.1 hb
    refine hf _ (fun d hd => ?_) c hc
    obtain ⟨b, hb, rfl⟩ := Option.map_eq_some_iff.1 hd
    exact h.subtree b (Keyed.mem_of_find? hb)
  · rw [Keyed.find?_alter_of_ne (keepsKey_alterBranch s f) hs] at hb
    exact h.subtree b (Keyed.mem_of_find? hb)

theorem Ordered.add {t : Node} (h : t.Ordered) (c : Category) (p : Predicate) : (t.add c p).Ordered :=
  .mk (h.rules.add c p) h.ascending h.subtree

theorem Ordered.put {t c : Node} (h : t.Ordered) (s : Segment) (hc : c.Ordered) : (t.put s c).Ordered := by
  cases t
  exact h.alterBranch s fun _ _ d hd => by cases hd; exact hc

/-- The union with any node keeps the order. -/
theorem Ordered.merge {t : Node} (h : t.Ordered) (a : Node) : (t.merge a).Ordered := by
  induction a using Node.induction generalizing t with
  | mk rules branches ih =>
    suffices H : ∀ {rs : Rules} {acc : Branches}, (Node.mk rs acc).Ordered →
        (Node.mk rs (mergeBelow acc branches)).Ordered by
      unfold Node.merge
      exact H (.mk (h.rules.merge rules) h.ascending h.subtree)
    induction branches with
    | nil => exact fun h => h
    | cons b rest ih' =>
      intro rs acc hacc
      unfold mergeBelow
      refine ih' (fun b hb => ih b (List.mem_cons_of_mem _ hb)) (hacc.alterBranch b.1 fun o ho c hc => ?_)
      cases hc
      exact ih b List.mem_cons_self (Ordered.getD_empty ho)

theorem Ordered.mergeAt {t : Node} (h : t.Ordered) (a : Node) : ∀ p : Path, (t.mergeAt p a).Ordered
  | [] => h.merge a
  | s :: p => by
    cases t
    exact h.alterBranch s fun o ho c hc => by cases hc; exact Ordered.mergeAt (Ordered.getD_empty ho) a p

theorem pruneBelow_sublist_map : ∀ branches : Branches,
    (pruneBelow branches).Sublist (branches.map fun b => (b.1, b.2.prune))
  | [] => .slnil
  | (s, c) :: rest => by
    unfold pruneBelow
    split
    · exact (pruneBelow_sublist_map rest).cons _
    · exact (pruneBelow_sublist_map rest).cons_cons _

theorem Ordered.prune {t : Node} (h : t.Ordered) : t.prune.Ordered := by
  induction t using Node.induction with
  | mk rules branches ih =>
    unfold Node.prune
    refine .mk h.rules.prune ?_ fun b hb => ?_
    · have hasc : Keyed.Ascending branchEdge (branches.map fun b => (b.1, b.2.prune)) :=
        List.pairwise_map.2 h.ascending
      exact hasc.sublist (pruneBelow_sublist_map branches)
    · obtain ⟨b', hb', rfl⟩ := List.mem_map.1 ((pruneBelow_sublist_map branches).subset hb)
      exact ih b' hb' (h.subtree b' hb')

theorem Ordered.mergePruned {t : Node} (h : t.Ordered) (a : Node) : ∀ p : Path, (t.mergePruned p a).Ordered
  | [] => h.merge a.prune
  | s :: p => by
    cases t
    refine h.alterBranch s fun o ho c hc => ?_
    simp only at hc
    split at hc
    · cases hc
    · cases hc; exact Ordered.mergePruned (Ordered.getD_empty ho) a p

end AccessRules.Node
