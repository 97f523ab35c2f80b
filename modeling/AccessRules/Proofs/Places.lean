import AccessRules.Proofs.Merging

/-!
# Where paths lead

A path leads from a tree to the tree at its end (`get?`), and from there branches lead on (`branchAt?`), each under a
label (`labelAt?`). What stands at the end of a path in a union is the union of what stands there in the two trees
(`get?_merge`), and of two labels for an edge that of the first tree stays (`labelAt?_merge`).

A union at the end of a path is a union with a tree that has nothing but this path above what is added, so it is enough
to know where paths lead in such a tree (`get?_mergeAt_empty`): they end on the way, or go through to what is added.
Hence what a union at the end of a path has at any place (`exists_get?_mergeAt`), where it has nodes
(`isSome_get?_mergeAt`), and how its edges are labelled (`labelAt?_mergeAt`).
-/

namespace AccessRules.RuleTree

variable {t a u : RuleTree} {p q r : Path} {e : Edge} {s : Segment}

/-! ## At the end of a path -/

/-- The branch along an edge from the end of a path. -/
def branchAt? (t : RuleTree) (q : Path) (e : Edge) : Option (Segment × RuleTree) :=
  (t.get? q).bind fun u => u.branch? e

/-- The segment that labels an edge from the end of a path. -/
def labelAt? (t : RuleTree) (q : Path) (e : Edge) : Option Segment := (t.branchAt? q e).map Prod.fst

theorem get?_nil (t : RuleTree) : t.get? [] = some t := rfl

theorem map_node_get? (t : RuleTree) (p : Path) : (t.get? p).map node = t.node.get? p := by
  unfold get?
  split
  · next h => exact h.symm
  · next h => exact h.symm

theorem get?_cons (t : RuleTree) (s : Segment) (p : Path) :
    t.get? (s :: p) = (t.branch? s.edge).bind fun b => b.2.get? p := by
  refine Option.map_injective (fun _ _ h => RuleTree.ext h) ?_
  rw [map_node_get?, Node.get?]
  unfold Node.child?
  rw [← map_bare_branch? t]
  cases t.branch? s.edge with
  | none => rfl
  | some b => exact (map_node_get? b.2 p).symm

/-- Only the edges of a path say where it leads. -/
theorem get?_congr (h : q.edges = r.edges) (t : RuleTree) : t.get? q = t.get? r := by
  induction q generalizing r t with
  | nil =>
    obtain rfl : r = [] := List.map_eq_nil_iff.1 h.symm
    rfl
  | cons s q ih =>
    cases r with
    | nil => cases h
    | cons s' r =>
      obtain ⟨hedge, h⟩ := List.cons.inj h
      rw [get?_cons, get?_cons, hedge]
      simp only [ih h]

theorem branchAt?_nil (t : RuleTree) (e : Edge) : t.branchAt? [] e = t.branch? e := rfl

theorem branchAt?_cons (t : RuleTree) (s : Segment) (q : Path) (e : Edge) :
    t.branchAt? (s :: q) e = (t.branch? s.edge).bind fun b => b.2.branchAt? q e := by
  rw [branchAt?, get?_cons, Option.bind_assoc]
  rfl

theorem branchAt?_empty (q : Path) (e : Edge) : empty.branchAt? q e = none := by
  cases q <;> rfl

/-- A node other than the top is reached along its own edge at last. -/
theorem get?_concat (t : RuleTree) (q : Path) (s : Segment) :
    t.get? (q ++ [s]) = (t.branchAt? q s.edge).map Prod.snd := by
  induction q generalizing t with
  | nil =>
    rw [List.nil_append, get?_cons, branchAt?_nil]
    cases t.branch? s.edge <;> rfl
  | cons s' q ih =>
    rw [List.cons_append, get?_cons, branchAt?_cons]
    cases t.branch? s'.edge with
    | none => rfl
    | some b => exact ih b.2

theorem labelAt?_eq_some_iff : t.labelAt? q e = some s ↔ ∃ u v, t.get? q = some u ∧ u.branch? e = some (s, v) := by
  unfold labelAt? branchAt?
  simp [Option.bind_eq_some_iff]

/-! ## Unions -/

theorem get?_merge (t a : RuleTree) (q : Path) : (t.merge a).get? q = (t.get? q).merge RuleTree.merge (a.get? q) := by
  induction q generalizing t a with
  | nil => rfl
  | cons s q ih =>
    rw [get?_cons, get?_cons, get?_cons, branch?_merge]
    cases t.branch? s.edge with
    | none => rw [Option.merge_none_left, Option.bind_none, Option.merge_none_left]
    | some b =>
      cases a.branch? s.edge with
      | none => rw [Option.merge_none_right, Option.bind_none, Option.merge_none_right]
      | some b' => exact ih b.2 b'.2

/-- What a union has exactly if one of the two trees has it is found in a union where it is found in one of them. -/
theorem exists_get?_merge {P : RuleTree → Prop} (hP : ∀ u v : RuleTree, P (u.merge v) ↔ P u ∨ P v) :
    (∃ u, (t.merge a).get? q = some u ∧ P u) ↔
      (∃ u, t.get? q = some u ∧ P u) ∨ ∃ u, a.get? q = some u ∧ P u := by
  rw [get?_merge]
  cases t.get? q <;> cases a.get? q <;> simp [hP]

theorem labelAt?_merge (t a : RuleTree) (q : Path) (e : Edge) :
    (t.merge a).labelAt? q e = (t.labelAt? q e).or (a.labelAt? q e) := by
  unfold labelAt? branchAt?
  rw [get?_merge]
  cases t.get? q with
  | none => rw [Option.merge_none_left, Option.bind_none, Option.map_none, Option.none_or]
  | some u =>
    cases a.get? q with
    | none => rw [Option.merge_none_right, Option.bind_none, Option.map_none, Option.or_none]
    | some v =>
      show ((u.merge v).branch? e).map Prod.fst = ((u.branch? e).map Prod.fst).or ((v.branch? e).map Prod.fst)
      rw [branch?_merge]
      cases u.branch? e <;> cases v.branch? e <;> rfl

/-! ## A path above a tree -/

theorem edges_cons_eq_append_iff {s' : Segment} :
    Path.edges (s' :: q) = Path.edges (s :: p) ++ r.edges ↔ s'.edge = s.edge ∧ q.edges = p.edges ++ r.edges :=
  List.cons_eq_cons

/-- A path ends on the way of another one if it takes the same first step and goes on to end there. -/
theorem exists_on_the_way_cons {s' : Segment} {P : Segment → Path → Prop} :
    (∃ (p₁ : Path) (x : Segment) (p₂ : Path), s :: p = p₁ ++ x :: p₂ ∧ Path.edges (s' :: q) = p₁.edges ∧ P x p₂) ↔
      s'.edge = s.edge ∧
        ∃ (p₁ : Path) (x : Segment) (p₂ : Path), p = p₁ ++ x :: p₂ ∧ q.edges = p₁.edges ∧ P x p₂ := by
  constructor
  · rintro ⟨p₁, x, p₂, hp, hq, h⟩
    cases p₁ with
    | nil => cases hq
    | cons y p₁ =>
      obtain ⟨rfl, rfl⟩ := List.cons.inj hp
      obtain ⟨he, hq⟩ := List.cons.inj hq
      exact ⟨he, p₁, x, p₂, rfl, hq, h⟩
  · rintro ⟨he, p₁, x, p₂, rfl, hq, h⟩
    exact ⟨s :: p₁, x, p₂, rfl, List.cons_eq_cons.2 ⟨he, hq⟩, h⟩

/-- Where there is nothing but a path above `a`, paths lead through it into `a`, or end on the way. -/
theorem get?_mergeAt_empty :
    (empty.mergeAt p a).get? q = some u ↔
      (∃ r, q.edges = p.edges ++ r.edges ∧ a.get? r = some u) ∨
        ∃ (p₁ : Path) (s : Segment) (p₂ : Path),
          p = p₁ ++ s :: p₂ ∧ q.edges = p₁.edges ∧ u = empty.mergeAt (s :: p₂) a := by
  induction p generalizing q with
  | nil =>
    rw [mergeAt_nil, empty_merge]
    constructor
    · intro h
      exact .inl ⟨q, rfl, h⟩
    · rintro (⟨r, hr, h⟩ | ⟨p₁, s, p₂, h, -⟩)
      · rw [get?_congr hr]
        exact h
      · cases p₁ <;> cases h
  | cons s p ih =>
    cases q with
    | nil =>
      rw [get?_nil, Option.some.injEq]
      constructor
      · intro h
        exact .inr ⟨[], s, p, rfl, rfl, h.symm⟩
      · rintro (⟨r, hr, -⟩ | ⟨p₁, s', p₂, h, hq, rfl⟩)
        · cases hr
        · obtain rfl : p₁ = [] := List.map_eq_nil_iff.1 hq.symm
          rw [List.nil_append] at h
          rw [h]
    | cons s' q =>
      rw [get?_cons, exists_on_the_way_cons (P := fun x p₂ => u = empty.mergeAt (x :: p₂) a)]
      simp only [edges_cons_eq_append_iff, and_assoc, exists_and_left]
      by_cases he : s'.edge = s.edge
      · rw [he, branch?_mergeAt_self, branch?_empty]
        simpa using ih (q := q)
      · rw [branch?_mergeAt_of_ne empty a he, branch?_empty]
        simp [he]

/-- What no tree on the way down has stands there only where `a` has it. -/
theorem exists_get?_mergeAt_empty {P : RuleTree → Prop} (hP : ∀ s p, ¬ P (empty.mergeAt (s :: p) a)) :
    (∃ u, (empty.mergeAt p a).get? q = some u ∧ P u) ↔
      ∃ r, q.edges = p.edges ++ r.edges ∧ ∃ u, a.get? r = some u ∧ P u := by
  constructor
  · rintro ⟨u, hu, hPu⟩
    rcases get?_mergeAt_empty.1 hu with ⟨r, hr, hu⟩ | ⟨p₁, s, p₂, -, -, rfl⟩
    · exact ⟨r, hr, u, hu, hPu⟩
    · exact absurd hPu (hP s p₂)
  · rintro ⟨r, hr, u, hu, hPu⟩
    exact ⟨u, get?_mergeAt_empty.2 (.inl ⟨r, hr, hu⟩), hPu⟩

theorem isSome_get?_mergeAt_empty :
    ((empty.mergeAt p a).get? q).isSome = true ↔
      q.edges <+: p.edges ∨ ∃ r, q.edges = p.edges ++ r.edges ∧ (a.get? r).isSome = true := by
  simp only [Option.isSome_iff_exists, get?_mergeAt_empty]
  constructor
  · rintro ⟨u, ⟨r, hr, hu⟩ | ⟨p₁, s, p₂, rfl, hq, -⟩⟩
    · exact .inr ⟨r, hr, u, hu⟩
    · refine .inl ⟨Path.edges (s :: p₂), ?_⟩
      rw [hq]
      exact (List.map_append ..).symm
  · rintro (⟨rest, hp⟩ | ⟨r, hr, u, hu⟩)
    · obtain ⟨p₁, p₂, rfl, hp₁, -⟩ := List.map_eq_append_iff.1 hp.symm
      cases p₂ with
      | nil =>
        refine ⟨a, .inl ⟨[], ?_, rfl⟩⟩
        rw [List.append_nil]
        exact hp₁.symm.trans (List.append_nil _).symm
      | cons s p₂ => exact ⟨_, .inr ⟨p₁, s, p₂, rfl, hp₁.symm, rfl⟩⟩
    · exact ⟨u, .inl ⟨r, hr, hu⟩⟩

/-- On the way down there is the next step alone. -/
theorem branch?_mergeAt_empty {p₁ : Path} {s' : Segment} :
    (empty.mergeAt (s' :: p₁) a).branch? e = some (s, u) ↔ (e = s.edge ∧ s' = s) ∧ empty.mergeAt p₁ a = u := by
  by_cases he : e = s'.edge
  · rw [he, branch?_mergeAt_self, branch?_empty]
    simp +contextual [Prod.ext_iff, eq_comm]
  · rw [branch?_mergeAt_of_ne empty a he, branch?_empty]
    refine iff_of_false nofun ?_
    rintro ⟨⟨h, rfl⟩, -⟩
    exact he h

theorem labelAt?_mergeAt_empty :
    (empty.mergeAt p a).labelAt? q e = some s ↔
      (∃ p₁ p₂ : Path, p = p₁ ++ s :: p₂ ∧ q.edges = p₁.edges ∧ e = s.edge) ∨
        ∃ r, q.edges = p.edges ++ r.edges ∧ a.labelAt? r e = some s := by
  rw [labelAt?_eq_some_iff]
  simp only [get?_mergeAt_empty, labelAt?_eq_some_iff]
  constructor
  · rintro ⟨u, v, ⟨r, hr, hu⟩ | ⟨p₁, s', p₂, hp, hq, rfl⟩, hb⟩
    · exact .inr ⟨r, hr, u, v, hu, hb⟩
    · obtain ⟨⟨he, rfl⟩, -⟩ := branch?_mergeAt_empty.1 hb
      exact .inl ⟨p₁, p₂, hp, hq, he⟩
  · rintro (⟨p₁, p₂, hp, hq, he⟩ | ⟨r, hr, u, v, hu, hb⟩)
    · exact ⟨_, _, .inr ⟨p₁, s, p₂, hp, hq, rfl⟩, branch?_mergeAt_empty.2 ⟨⟨he, rfl⟩, rfl⟩⟩
    · exact ⟨u, v, .inl ⟨r, hr, hu⟩, hb⟩

/-! ## Unions at the end of a path -/

/-- What is found in a union at the end of a path stands in the tree at the same place, or in what is added behind the
path. -/
theorem exists_get?_mergeAt {P : RuleTree → Prop} (hmerge : ∀ u v : RuleTree, P (u.merge v) ↔ P u ∨ P v)
    (hpath : ∀ s p, ¬ P (empty.mergeAt (s :: p) a)) :
    (∃ u, (t.mergeAt p a).get? q = some u ∧ P u) ↔
      (∃ u, t.get? q = some u ∧ P u) ∨ ∃ r, q.edges = p.edges ++ r.edges ∧ ∃ u, a.get? r = some u ∧ P u := by
  rw [mergeAt_eq_merge, exists_get?_merge hmerge, exists_get?_mergeAt_empty hpath]

theorem isSome_get?_mergeAt :
    ((t.mergeAt p a).get? q).isSome = true ↔
      (t.get? q).isSome = true ∨ q.edges <+: p.edges ∨
        ∃ r, q.edges = p.edges ++ r.edges ∧ (a.get? r).isSome = true := by
  rw [mergeAt_eq_merge, get?_merge, Option.isSome_merge, Bool.or_eq_true, isSome_get?_mergeAt_empty]

theorem labelAt?_mergeAt :
    (t.mergeAt p a).labelAt? q e = some s ↔
      t.labelAt? q e = some s ∨ t.labelAt? q e = none ∧
        ((∃ p₁ p₂ : Path, p = p₁ ++ s :: p₂ ∧ q.edges = p₁.edges ∧ e = s.edge) ∨
          ∃ r, q.edges = p.edges ++ r.edges ∧ a.labelAt? r e = some s) := by
  rw [mergeAt_eq_merge, labelAt?_merge, Option.or_eq_some_iff, labelAt?_mergeAt_empty]

end AccessRules.RuleTree
