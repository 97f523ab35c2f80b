import AccessRules.Proofs.Counting
import AccessRules.Proofs.Same

/-!
# Operations without names

The names of captures stand in the labels of branches. No operation on trees compares them: a branch is looked for along
an edge, which has no name. So trees are the same exactly if their rules are equal and for each edge they have branches to
trees that are the same, or none (`RuleTree.same_iff`), and from trees and paths that are the same every operation gives
what is the same, although the names that it keeps may be those of one tree here and of the other one there.
-/

namespace AccessRules

/-- What is found in lists whose entries are related one by one, with equal keys. -/
theorem Keyed.find?_of_forall₂ {ε κ : Type} [Ord κ] {key : ε → κ} {R : ε → ε → Prop} {l l' : List ε}
    (h : List.Forall₂ (fun a b => key a = key b ∧ R a b) l l') (k : κ) :
    Option.Rel R (find? key k l) (find? key k l') := by
  induction h with
  | nil => exact .none
  | cons hab _ ih =>
    obtain ⟨hkey, hR⟩ := hab
    simp only [find?, List.find?_cons, hkey]
    split
    · exact .some hR
    · exact ih

/-! ## Nodes -/

namespace Node

theorem sameBelow_iff {branches branches' : Branches} :
    sameBelow branches branches' = true ↔
      List.Forall₂ (fun b b' => b.1.edge = b'.1.edge ∧ b.2.same b'.2 = true) branches branches' := by
  refine ⟨fun h => ?_, sameBelow_of_forall₂⟩
  induction branches generalizing branches' with
  | nil =>
    cases branches' with
    | nil => exact .nil
    | cons => cases h
  | cons b rest ih =>
    cases branches' with
    | nil => cases h
    | cons b' rest' =>
      simp only [sameBelow, Bool.and_eq_true, decide_eq_true_eq] at h
      exact .cons h.1 (ih h.2)

theorem same_iff {c c' : Node} :
    c.same c' = true ↔ c.rules = c'.rules ∧
      List.Forall₂ (fun b b' => b.1.edge = b'.1.edge ∧ b.2.same b'.2 = true) c.branches c'.branches := by
  obtain ⟨rules, branches⟩ := c
  obtain ⟨rules', branches'⟩ := c'
  rw [same, Bool.and_eq_true, decide_eq_true_eq, sameBelow_iff]
  rfl

/-- What nodes that are the same have in common follows from what those have in common that their branches lead to. -/
theorem same_induction {motive : Node → Node → Prop}
    (step : ∀ c c', c.rules = c'.rules →
      List.Forall₂ (fun b b' => b.1.edge = b'.1.edge ∧ motive b.2 b'.2) c.branches c'.branches → motive c c')
    {c c' : Node} (h : c.same c' = true) : motive c c' := by
  induction c using Node.induction generalizing c' with
  | mk rules branches ih =>
    obtain ⟨hrules, hbranches⟩ := same_iff.1 h
    refine step _ _ hrules ?_
    clear h hrules
    change List.Forall₂ _ branches c'.branches at hbranches
    show List.Forall₂ _ branches c'.branches
    generalize c'.branches = branches' at hbranches ⊢
    induction hbranches with
    | nil => exact .nil
    | cons hb _ ihRest =>
      exact .cons ⟨hb.1, ih _ List.mem_cons_self hb.2⟩ (ihRest fun b hm => ih b (List.mem_cons_of_mem _ hm))

theorem map_eq_of_forall₂ {α : Type} {f : Node → α} {branches branches' : Branches}
    (h : List.Forall₂ (fun b b' => b.1.edge = b'.1.edge ∧ f b.2 = f b'.2) branches branches') :
    (branches.map fun b => f b.2) = branches'.map fun b => f b.2 :=
  List.forall₂_eq_eq_eq ▸ List.forall₂_map_left_iff.2 (List.forall₂_map_right_iff.2 (h.imp fun _ _ hb => hb.2))

theorem size_eq_of_same {c c' : Node} (h : c.same c' = true) : c.size = c'.size := by
  refine same_induction (motive := fun c c' => c.size = c'.size) (fun c c' _ hbranches => ?_) h
  rw [size_eq, size_eq, sizeBelow_eq_sum, sizeBelow_eq_sum, map_eq_of_forall₂ hbranches]

theorem predicateCount_eq_of_same {c c' : Node} (h : c.same c' = true) : c.predicateCount = c'.predicateCount := by
  refine same_induction (motive := fun c c' => c.predicateCount = c'.predicateCount) (fun c c' hrules hbranches => ?_) h
  rw [predicateCount_eq, predicateCount_eq, predicateCountBelow_eq_sum, predicateCountBelow_eq_sum,
    map_eq_of_forall₂ hbranches, hrules]

theorem paths_eq (c : Node) : c.paths = (if c.rules.isVoid then [] else [[]]) ++ pathsBelow c.branches := by
  cases c
  rfl

theorem pathsBelow_same {branches branches' : Branches}
    (h : List.Forall₂ (fun b b' => b.1.edge = b'.1.edge ∧
      List.Forall₂ (fun p p' => Path.same p p' = true) b.2.paths b'.2.paths) branches branches') :
    List.Forall₂ (fun p p' => Path.same p p' = true) (pathsBelow branches) (pathsBelow branches') := by
  induction h with
  | nil => exact .nil
  | cons hb _ ih =>
    refine List.rel_append (List.forall₂_map_left_iff.2 (List.forall₂_map_right_iff.2 ?_)) ih
    exact hb.2.imp fun _ _ hp => Path.cons_same.2 ⟨hb.1, hp⟩

theorem paths_same {c c' : Node} (h : c.same c' = true) :
    List.Forall₂ (fun p p' => Path.same p p' = true) c.paths c'.paths := by
  refine same_induction (motive := fun c c' => List.Forall₂ (fun p p' => Path.same p p' = true) c.paths c'.paths)
    (fun c c' hrules hbranches => ?_) h
  rw [paths_eq, paths_eq, hrules]
  refine List.rel_append ?_ (pathsBelow_same hbranches)
  split
  · exact .nil
  · exact .cons rfl .nil

end Node

namespace RuleTree

variable {t t' a a' : RuleTree} {p p' : Path} {s s' : Segment}

/-! ## Trees -/

/-- Sameness by rules and branches. -/
theorem same_iff :
    t.same t' = true ↔ t.rules = t'.rules ∧
      ∀ e, Option.Rel (fun b b' => b.2.same b'.2 = true) (t.branch? e) (t'.branch? e) := by
  refine ⟨fun h => ?_, fun h => same_of_branches h.1 h.2⟩
  obtain ⟨hrules, hbranches⟩ := Node.same_iff.1 h
  refine ⟨hrules, fun e => ?_⟩
  have hfound : Option.Rel _ (Keyed.find? Node.branchEdge e t.node.branches)
      (Keyed.find? Node.branchEdge e t'.node.branches) := Keyed.find?_of_forall₂ hbranches e
  rw [find?_branches, find?_branches] at hfound
  generalize t.branch? e = o, t'.branch? e = o' at hfound ⊢
  cases o <;> cases o' <;> cases hfound
  · exact .none
  · next hb => exact .some hb

theorem same_refl (t : RuleTree) : t.same t = true := by
  induction t using RuleTree.induction with
  | step t ih =>
    refine same_iff.2 ⟨rfl, fun e => ?_⟩
    cases hb : t.branch? e with
    | none => exact .none
    | some b => exact .some (ih e b hb)

/-- What is below a branch, or the empty tree. -/
theorem same_getD {o o' : Option (Segment × RuleTree)} (h : Option.Rel (fun b b' => b.2.same b'.2 = true) o o') :
    ((o.map Prod.snd).getD empty).same ((o'.map Prod.snd).getD empty) = true := by
  cases h with
  | none => exact same_refl empty
  | some hb => exact hb

theorem same_isEmpty (h : t.same t' = true) : t.isEmpty = t'.isEmpty := by
  obtain ⟨hrules, hbranches⟩ := same_iff.1 h
  rw [Bool.eq_iff_iff, isEmpty_iff, isEmpty_iff, hrules]
  refine and_congr_right fun _ => forall_congr' fun e => ?_
  have he := hbranches e
  generalize t.branch? e = o, t'.branch? e = o' at he ⊢
  cases he <;> simp

theorem same_merge (h : t.same t' = true) (ha : a.same a' = true) : (t.merge a).same (t'.merge a') = true := by
  induction a using RuleTree.induction generalizing t t' a' with
  | step a ih =>
    obtain ⟨hrules, hbranches⟩ := same_iff.1 h
    obtain ⟨hrules', hbranches'⟩ := same_iff.1 ha
    refine same_iff.2 ⟨by rw [rules_merge, rules_merge, hrules, hrules'], fun e => ?_⟩
    have he := hbranches e
    have he' := hbranches' e
    rw [branch?_merge, branch?_merge]
    cases hb : a.branch? e with
    | none =>
      rw [hb] at he'
      generalize t.branch? e = o, t'.branch? e = u, a'.branch? e = u' at he he' ⊢
      cases he'
      rwa [Option.merge_none_right, Option.merge_none_right]
    | some b =>
      rw [hb] at he'
      generalize t.branch? e = o, t'.branch? e = u, a'.branch? e = u' at he he' ⊢
      cases he' with
      | some hbelow =>
        cases he with
        | none => exact .some hbelow
        | some habove => exact .some (ih e b hb habove hbelow)

/-- One branch is changed, along the edge of a segment. -/
theorem same_mergeAt (h : t.same t' = true) (ha : a.same a' = true) (hp : p.same p' = true) :
    (t.mergeAt p a).same (t'.mergeAt p' a') = true := by
  induction p generalizing t t' p' with
  | nil =>
    obtain rfl := Path.nil_same.1 hp
    exact same_merge h ha
  | cons s p ih =>
    cases p' with
    | nil => exact absurd hp (Path.not_cons_same_nil s p)
    | cons s' p' =>
      obtain ⟨hedge, hp⟩ := Path.cons_same.1 hp
      obtain ⟨hrules, hbranches⟩ := same_iff.1 h
      refine same_iff.2 ⟨hrules, fun e => ?_⟩
      by_cases he : e = s.edge
      · rw [he, branch?_mergeAt_self, hedge, branch?_mergeAt_self]
        exact .some (ih (same_getD (hbranches _)) hp)
      · rw [branch?_mergeAt_of_ne t a he, branch?_mergeAt_of_ne t' a' (hedge ▸ he)]
        exact hbranches e

theorem same_prune (h : t.same t' = true) : t.prune.same t'.prune = true := by
  induction t using RuleTree.induction generalizing t' with
  | step t ih =>
    obtain ⟨hrules, hbranches⟩ := same_iff.1 h
    refine same_iff.2 ⟨by rw [rules_prune, rules_prune, hrules], fun e => ?_⟩
    have he := hbranches e
    rw [branch?_prune, branch?_prune]
    cases hb : t.branch? e with
    | none =>
      rw [hb] at he
      generalize t'.branch? e = o' at he ⊢
      cases he
      exact .none
    | some b =>
      rw [hb] at he
      generalize t'.branch? e = o' at he ⊢
      cases he with
      | some hbelow =>
        have hpruned := ih e b hb hbelow
        simp only [Option.bind_some, pruneBranch?, same_isEmpty hpruned]
        split
        · exact .none
        · exact .some hpruned

theorem same_get? (h : t.same t' = true) (hp : p.same p' = true) :
    Option.Rel (fun u u' => u.same u' = true) (t.get? p) (t'.get? p') := by
  induction p generalizing t t' p' with
  | nil =>
    obtain rfl := Path.nil_same.1 hp
    exact .some h
  | cons s p ih =>
    cases p' with
    | nil => exact absurd hp (Path.not_cons_same_nil s p)
    | cons s' p' =>
      obtain ⟨hedge, hp⟩ := Path.cons_same.1 hp
      have he := (same_iff.1 h).2 s.edge
      rw [get?_cons, get?_cons, ← hedge]
      generalize t.branch? s.edge = o, t'.branch? s.edge = o' at he ⊢
      cases he with
      | none => exact .none
      | some hb => exact ih hb hp

theorem map_node_child? (t : RuleTree) (s : Segment) : (t.child? s).map node = t.node.child? s := by
  unfold child?
  split
  · next h => exact h.symm
  · next h => exact h.symm

theorem child?_eq_get? (t : RuleTree) (s : Segment) : t.child? s = t.get? [s] := by
  refine Option.map_injective (fun _ _ h => RuleTree.ext h) ?_
  rw [map_node_child?, map_node_get?, Node.get?]
  cases t.node.child? s <;> rfl

end RuleTree

end AccessRules
