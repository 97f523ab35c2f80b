import AccessRules.Tree.Basic
import AccessRules.Proofs.Sets

/-!
# Trees by their branches

A rule tree is determined by its rules and by the branch found for each edge (`RuleTree.ext_branches`), and a fact
follows for all trees if it follows for a tree from the trees that its branches lead to (`RuleTree.induction`). For
every operation there is one lemma on the rules and one on the branch for an edge, so later proofs need neither the
lists of branches nor their order.
-/

namespace AccessRules

/-! ## Nodes -/

namespace Node

theorem mk_eta (c : Node) : mk c.rules c.branches = c := by
  cases c
  rfl

theorem size_eq (c : Node) : c.size = 1 + sizeBelow c.branches := by
  cases c
  rfl

theorem predicateCount_eq (c : Node) : c.predicateCount = c.rules.count + predicateCountBelow c.branches := by
  cases c
  rfl

/-- A fact about all lists of branches follows for a list from the facts about what is below its first branch and about
the other branches. -/
theorem induction_below {motive : Branches → Prop} (nil : motive [])
    (cons : ∀ s c rest, motive c.branches → motive rest → motive ((s, c) :: rest)) (branches : Branches) :
    motive branches := by
  suffices h : ∀ c : Node, motive c.branches from h (.mk [] branches)
  intro c
  induction c using Node.induction with
  | mk rules branches ih =>
    show motive branches
    induction branches with
    | nil => exact nil
    | cons b rest ihRest =>
      exact cons b.1 b.2 rest (ih b List.mem_cons_self) (ihRest fun b' hb' => ih b' (List.mem_cons_of_mem _ hb'))

theorem find?_first (s : Segment) (c : Node) (rest : Branches) :
    Keyed.find? branchEdge s.edge ((s, c) :: rest) = some (s, c) :=
  Keyed.find?_cons_self (e := (s, c))

theorem find?_later {s : Segment} {e : Edge} (he : e ≠ s.edge) (c : Node) (rest : Branches) :
    Keyed.find? branchEdge e ((s, c) :: rest) = Keyed.find? branchEdge e rest :=
  Keyed.find?_cons_of_ne (e := (s, c)) he

theorem find?_rest_eq_none {s : Segment} {c : Node} {rest : Branches}
    (h : Keyed.Ascending branchEdge ((s, c) :: rest)) : Keyed.find? branchEdge s.edge rest = none :=
  Keyed.find?_tail_eq_none h

/-- What `alterBranch` finds for the edge that it changes. -/
theorem find?_alterBranch_self {branches : Branches} (h : Keyed.Ascending branchEdge branches) (s : Segment)
    (f : Option Node → Option Node) :
    Keyed.find? branchEdge s.edge (alterBranch s f branches) =
      (f ((Keyed.find? branchEdge s.edge branches).map Prod.snd)).map fun c =>
        (((Keyed.find? branchEdge s.edge branches).map Prod.fst).getD s, c) :=
  Keyed.find?_alter_self (keepsKey_alterBranch s f) h

theorem find?_alterBranch_of_ne {s : Segment} {e : Edge} (he : e ≠ s.edge) (f : Option Node → Option Node)
    (branches : Branches) :
    Keyed.find? branchEdge e (alterBranch s f branches) = Keyed.find? branchEdge e branches :=
  Keyed.find?_alter_of_ne (keepsKey_alterBranch s f) he branches

theorem ascending_alterBranch {branches : Branches} (h : Keyed.Ascending branchEdge branches) (s : Segment)
    (f : Option Node → Option Node) : Keyed.Ascending branchEdge (alterBranch s f branches) :=
  Keyed.ascending_alter (keepsKey_alterBranch s f) h

/-- A branch that is added to others: it is united with the one that is there, whose label stays. -/
def unite (old : Option (Segment × Node)) (new : Segment × Node) : Segment × Node :=
  ((old.map Prod.fst).getD new.1, ((old.map Prod.snd).getD empty).merge new.2)

theorem find?_mergeBelow {branches acc : Branches} (hb : Keyed.Ascending branchEdge branches)
    (ha : Keyed.Ascending branchEdge acc) (e : Edge) :
    Keyed.find? branchEdge e (mergeBelow acc branches) =
      match Keyed.find? branchEdge e branches with
      | none => Keyed.find? branchEdge e acc
      | some b => some (unite (Keyed.find? branchEdge e acc) b) := by
  induction branches generalizing acc with
  | nil => rfl
  | cons b branches ih =>
    obtain ⟨s, c⟩ := b
    unfold mergeBelow
    rw [ih hb.tail (ascending_alterBranch ha s _)]
    by_cases he : e = s.edge
    · subst he
      rw [find?_rest_eq_none hb, find?_alterBranch_self ha, find?_first]
      rfl
    · rw [find?_alterBranch_of_ne he, find?_later he]

theorem branch?_merge {t a : Node} (ht : t.Ordered) (ha : a.Ordered) (e : Edge) :
    (t.merge a).branch? e =
      match a.branch? e with
      | none => t.branch? e
      | some b => some (unite (t.branch? e) b) := by
  cases a
  exact find?_mergeBelow ha.ascending ht.ascending e

theorem branches_mergeAt_cons (t : Node) (s : Segment) (p : Path) (a : Node) :
    (t.mergeAt (s :: p) a).branches =
      alterBranch s (fun old => some ((old.getD empty).mergeAt p a)) t.branches :=
  rfl

theorem branches_mergePruned_cons (t : Node) (s : Segment) (p : Path) (a : Node) :
    (t.mergePruned (s :: p) a).branches =
      alterBranch s (fun old =>
        if ((old.getD empty).mergePruned p a).isEmpty then none else some ((old.getD empty).mergePruned p a))
        t.branches :=
  rfl

/-- What is left of a branch in a pruned tree. -/
def pruneBranch? (b : Segment × Node) : Option (Segment × Node) :=
  if b.2.prune.isEmpty then none else some (b.1, b.2.prune)

theorem find?_pruneBelow {branches : Branches} (h : Keyed.Ascending branchEdge branches) (e : Edge) :
    Keyed.find? branchEdge e (pruneBelow branches) = (Keyed.find? branchEdge e branches).bind pruneBranch? := by
  induction branches with
  | nil => rfl
  | cons b branches ih =>
    obtain ⟨s, c⟩ := b
    have ih := ih h.tail
    by_cases he : e = s.edge
    · subst he
      rw [find?_rest_eq_none h] at ih
      rw [find?_first]
      show _ = pruneBranch? (s, c)
      unfold pruneBelow pruneBranch?
      split
      · exact ih
      · exact find?_first s c.prune _
    · rw [find?_later he]
      unfold pruneBelow
      split
      · exact ih
      · rw [find?_later he]
        exact ih

theorem branch?_prune {t : Node} (h : t.Ordered) (e : Edge) :
    t.prune.branch? e = (t.branch? e).bind pruneBranch? := by
  cases t
  exact find?_pruneBelow h.ascending e

end Node

/-! ## Rule trees -/

namespace RuleTree

/-- The branch along an edge. -/
def branch? (t : RuleTree) (e : Edge) : Option (Segment × RuleTree) :=
  match h : t.node.branch? e with
  | none => none
  | some b => some (b.1, ⟨b.2, t.ordered.subtree b (Keyed.mem_of_find? h)⟩)

/-- A branch without the proof that the tree below is in order. -/
def bare (b : Segment × RuleTree) : Segment × Node := (b.1, b.2.node)

theorem bare_injective : Function.Injective bare := by
  rintro ⟨s, t⟩ ⟨s', t'⟩ h
  obtain ⟨rfl, ht⟩ := Prod.mk.inj h
  exact congrArg _ (RuleTree.ext ht)

theorem map_bare_branch? (t : RuleTree) (e : Edge) : (t.branch? e).map bare = t.node.branch? e := by
  unfold branch?
  split
  · next h => exact h.symm
  · next h => exact h.symm

theorem find?_branches (t : RuleTree) (e : Edge) :
    Keyed.find? Node.branchEdge e t.node.branches = (t.branch? e).map bare :=
  (map_bare_branch? t e).symm

theorem branch?_eq_iff {t : RuleTree} {e : Edge} {o : Option (Segment × RuleTree)} :
    t.branch? e = o ↔ t.node.branch? e = o.map bare := by
  rw [← map_bare_branch?]
  exact (Option.map_injective bare_injective).eq_iff.symm

theorem edge_of_branch? {t : RuleTree} {e : Edge} {b : Segment × RuleTree} (h : t.branch? e = some b) :
    b.1.edge = e := by
  have hb : Keyed.find? Node.branchEdge e t.node.branches = some (bare b) := branch?_eq_iff.1 h
  have hkey := Keyed.key_of_find? hb
  exact hkey

/-- Trees with the same rules and the same branches are equal. -/
theorem ext_branches {t u : RuleTree} (hr : t.rules = u.rules) (hb : ∀ e, t.branch? e = u.branch? e) : t = u := by
  obtain ⟨⟨rules, branches⟩, ht⟩ := t
  obtain ⟨⟨rules', branches'⟩, hu⟩ := u
  have hbr : branches = branches' := Keyed.ext ht.ascending hu.ascending fun e => by
    have := hb e
    rw [branch?_eq_iff, map_bare_branch?] at this
    exact this
  obtain rfl : rules = rules' := hr
  subst hbr
  rfl

/-- A fact about all trees follows for a tree from the same fact about the trees that its branches lead to. -/
theorem induction {motive : RuleTree → Prop}
    (step : ∀ t : RuleTree, (∀ e b, t.branch? e = some b → motive b.2) → motive t) (t : RuleTree) : motive t := by
  obtain ⟨node, h⟩ := t
  induction node using Node.induction with
  | mk rules branches ih =>
    refine step _ fun e b hb => ?_
    have hm := Keyed.mem_of_find? (branch?_eq_iff.1 hb)
    exact ih _ hm b.2.ordered

theorem rules_ordered (t : RuleTree) : t.rules.Ordered := t.ordered.rules

/-! ### The empty tree, and adding a predicate -/

@[simp] theorem rules_empty : empty.rules = [] := rfl

@[simp] theorem branch?_empty (e : Edge) : empty.branch? e = none := rfl

@[simp] theorem rules_add (t : RuleTree) (c : Category) (p : Predicate) : (t.add c p).rules = t.rules.add c p := rfl

@[simp] theorem branch?_add (t : RuleTree) (c : Category) (p : Predicate) (e : Edge) :
    (t.add c p).branch? e = t.branch? e :=
  branch?_eq_iff.2 (map_bare_branch? t e).symm

theorem isEmpty_iff {t : RuleTree} : t.isEmpty = true ↔ t.rules.isVoid = true ∧ ∀ e, t.branch? e = none := by
  obtain ⟨⟨rules, branches⟩, h⟩ := t
  show (rules.isVoid && List.isEmpty branches) = true ↔ _
  rw [Bool.and_eq_true, List.isEmpty_iff]
  refine and_congr_right fun _ => ⟨?_, fun hb => ?_⟩
  · rintro rfl e
    rfl
  · have hnil : Keyed.Ascending Node.branchEdge [] := .nil
    exact Keyed.ext h.ascending hnil fun e => branch?_eq_iff.1 (hb e)

/-! ### Union -/

theorem rules_merge (t a : RuleTree) : (t.merge a).rules = t.rules.merge a.rules := by
  obtain ⟨⟨_, _⟩, _⟩ := a
  rfl

theorem branch?_merge_eq (t a : RuleTree) (e : Edge) :
    (t.merge a).branch? e =
      match a.branch? e with
      | none => t.branch? e
      | some b => some (((t.branch? e).map Prod.fst).getD b.1, (((t.branch? e).map Prod.snd).getD empty).merge b.2) := by
  rw [branch?_eq_iff]
  refine (Node.branch?_merge t.ordered a.ordered e).trans ?_
  rw [← map_bare_branch? t, ← map_bare_branch? a]
  cases a.branch? e <;> cases t.branch? e <;> rfl

@[simp] theorem empty_merge (a : RuleTree) : empty.merge a = a := by
  induction a using RuleTree.induction with
  | step a ih =>
    refine ext_branches ((rules_merge empty a).trans (Rules.nil_merge a.rules_ordered)) fun e => ?_
    rw [branch?_merge_eq, branch?_empty]
    cases hb : a.branch? e with
    | none => rfl
    | some b => exact congrArg some (Prod.ext rfl (ih e b hb))

/-- Branches of a union: where both trees have one, the first label stays and the trees below are united. -/
theorem branch?_merge (t a : RuleTree) (e : Edge) :
    (t.merge a).branch? e = (t.branch? e).merge (fun b b' => (b.1, b.2.merge b'.2)) (a.branch? e) := by
  rw [branch?_merge_eq]
  cases a.branch? e with
  | none => exact Option.merge_none_right.symm
  | some b =>
    cases t.branch? e with
    | none => exact congrArg some (Prod.ext rfl (empty_merge b.2))
    | some b' => rfl

/-! ### Union at the end of a path -/

@[simp] theorem mergeAt_nil (t a : RuleTree) : t.mergeAt [] a = t.merge a := rfl

@[simp] theorem rules_mergeAt_cons (t a : RuleTree) (s : Segment) (p : Path) : (t.mergeAt (s :: p) a).rules = t.rules :=
  rfl

theorem branch?_mergeAt_self (t a : RuleTree) (s : Segment) (p : Path) :
    (t.mergeAt (s :: p) a).branch? s.edge =
      some (((t.branch? s.edge).map Prod.fst).getD s, (((t.branch? s.edge).map Prod.snd).getD empty).mergeAt p a) := by
  rw [branch?_eq_iff]
  show Keyed.find? _ _ (t.node.mergeAt (s :: p) a.node).branches = _
  rw [Node.branches_mergeAt_cons, Node.find?_alterBranch_self t.ordered.ascending, find?_branches]
  cases t.branch? s.edge <;> rfl

theorem branch?_mergeAt_of_ne (t a : RuleTree) {s : Segment} {e : Edge} (he : e ≠ s.edge) (p : Path) :
    (t.mergeAt (s :: p) a).branch? e = t.branch? e := by
  rw [branch?_eq_iff, map_bare_branch?]
  show Keyed.find? _ _ (t.node.mergeAt (s :: p) a.node).branches = _
  rw [Node.branches_mergeAt_cons]
  exact Node.find?_alterBranch_of_ne he _ _

/-! ### Pruning -/

@[simp] theorem rules_prune (t : RuleTree) : t.prune.rules = t.rules.prune := by
  obtain ⟨⟨_, _⟩, _⟩ := t
  rfl

/-- What is left of a branch in a pruned tree. -/
def pruneBranch? (b : Segment × RuleTree) : Option (Segment × RuleTree) :=
  if b.2.prune.isEmpty then none else some (b.1, b.2.prune)

theorem branch?_prune (t : RuleTree) (e : Edge) : t.prune.branch? e = (t.branch? e).bind pruneBranch? := by
  rw [branch?_eq_iff]
  refine (Node.branch?_prune t.ordered e).trans ?_
  rw [← map_bare_branch? t]
  cases t.branch? e with
  | none => rfl
  | some b =>
    show Node.pruneBranch? (bare b) = (pruneBranch? b).map bare
    unfold Node.pruneBranch? pruneBranch?
    show (if b.2.prune.isEmpty then none else some (bare (b.1, b.2.prune))) = _
    split <;> rfl

@[simp] theorem mergePruned_nil (t a : RuleTree) : t.mergePruned [] a = t.merge a.prune := rfl

theorem branch?_mergePruned_self (t a : RuleTree) (s : Segment) (p : Path) :
    (t.mergePruned (s :: p) a).branch? s.edge =
      (let c := (((t.branch? s.edge).map Prod.snd).getD empty).mergePruned p a
       if c.isEmpty then none else some (((t.branch? s.edge).map Prod.fst).getD s, c)) := by
  rw [branch?_eq_iff]
  show Keyed.find? _ _ (t.node.mergePruned (s :: p) a.node).branches = _
  rw [Node.branches_mergePruned_cons, Node.find?_alterBranch_self t.ordered.ascending, find?_branches]
  cases t.branch? s.edge with
  | none =>
    show (if (empty.mergePruned p a).isEmpty then none else some (empty.mergePruned p a).node).map _ =
      Option.map bare (if (empty.mergePruned p a).isEmpty then none else some (s, empty.mergePruned p a))
    split <;> rfl
  | some b =>
    show (if (b.2.mergePruned p a).isEmpty then none else some (b.2.mergePruned p a).node).map _ =
      Option.map bare (if (b.2.mergePruned p a).isEmpty then none else some (b.1, b.2.mergePruned p a))
    split <;> rfl

theorem branch?_mergePruned_of_ne (t a : RuleTree) {s : Segment} {e : Edge} (he : e ≠ s.edge) (p : Path) :
    (t.mergePruned (s :: p) a).branch? e = t.branch? e := by
  rw [branch?_eq_iff, map_bare_branch?]
  show Keyed.find? _ _ (t.node.mergePruned (s :: p) a.node).branches = _
  rw [Node.branches_mergePruned_cons]
  exact Node.find?_alterBranch_of_ne he _ _

end RuleTree

end AccessRules
