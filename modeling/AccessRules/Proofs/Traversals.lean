import AccessRules.Proofs.Gathering
import Mathlib.Data.Set.Card

/-!
# Traversals against look-up

`paths`, `size` and `predicateCount` go through a whole tree, `get?` follows a single path; here they are shown to tell
the same. The branches of a node are in the order of their edges, and a node comes before what is below it, so the order
in which a tree is gone through is that of paths, segment by segment (`Node.pairwise_paths`). What is listed is what
`gather` lists, so look-up finds it again (`mem_map_edges_paths`), and what is counted is the number of entries.

Nothing depends on how the paths are put together: a tour that has one path for the whole tree, which it extends before
a branch and shortens behind it, finds the same ones (`Node.tour_eq`).
-/

namespace AccessRules

/-! ## The order of paths -/

namespace Path

theorem compare_cons (s s' : Segment) (p q : Path) :
    compare (s :: p : Path) (s' :: q) = (compare s s').then (compare p q) :=
  List.compareLex_cons_cons

theorem compare_nil_cons (s : Segment) (p : Path) : compare ([] : Path) (s :: p) = .lt := List.compareLex_nil_cons

/-- A step along the same edge decides nothing. -/
theorem compare_cons_self (s : Segment) (p q : Path) : compare (s :: p : Path) (s :: q) = compare p q := by
  rw [compare_cons, Std.compare_self, Ordering.eq_then]

/-- The earlier edge decides. -/
theorem compare_cons_of_lt {s s' : Segment} (h : compare s.edge s'.edge = .lt) (p q : Path) :
    compare (s :: p : Path) (s' :: q) = .lt := by
  rw [compare_cons, Segment.compare_eq, h, Ordering.lt_then]

/-- Paths are in the order of their edges. -/
theorem compare_eq : ∀ p q : Path, compare p q = compare p.edges q.edges
  | [], [] => rfl
  | [], _ :: _ => rfl
  | _ :: _, [] => rfl
  | s :: p, s' :: q => by
    rw [compare_cons, Segment.compare_eq, compare_eq p q]
    exact List.compareLex_cons_cons.symm

/-- Of two paths to the same place none is before the other. -/
theorem same_eq_false_of_lt {p q : Path} (h : compare p q = .lt) : p.same q = false := by
  refine Bool.eq_false_iff.2 fun hsame => ?_
  rw [compare_eq, same_iff.1 hsame, Std.compare_self] at h
  cases h

end Path

/-! ## Labels in order -/

namespace Segment

/-- Nothing comes behind a capture. -/
theorem compare_ne_lt_of_isCapture {s : Segment} (hs : s.isCapture = true) (s' : Segment) : compare s s' ≠ .lt := by
  cases s with
  | literal text => cases hs
  | capture name => cases s' <;> exact nofun

/-- Segments that go up strictly are literals and then at most one capture. -/
theorem exists_captures_behind {labels : List Segment} (h : labels.Pairwise fun s s' => compare s s' = .lt) :
    ∃ literals captures : List Segment, labels = literals ++ captures ∧ captures.length ≤ 1 ∧
      (∀ s ∈ literals, s.isCapture = false) ∧ ∀ s ∈ captures, s.isCapture = true := by
  induction labels with
  | nil => exact ⟨[], [], rfl, Nat.zero_le 1, nofun, nofun⟩
  | cons s labels ih =>
    obtain ⟨hs, h⟩ := List.pairwise_cons.1 h
    cases hc : s.isCapture with
    | true =>
      obtain rfl : labels = [] := List.eq_nil_iff_forall_not_mem.2 fun s' hs' =>
        compare_ne_lt_of_isCapture hc s' (hs s' hs')
      exact ⟨[], [s], rfl, Nat.le_refl 1, nofun, List.forall_mem_singleton.2 hc⟩
    | false =>
      obtain ⟨literals, captures, rfl, hlength, hliterals, hcaptures⟩ := ih h
      exact ⟨s :: literals, captures, rfl, hlength, List.forall_mem_cons.2 ⟨hc, hliterals⟩, hcaptures⟩

end Segment

/-! ## Going through a node -/

/-- A tour of a tree: the path from the top to where it is, and the paths that it has found. -/
structure Tour where
  here : Path
  found : List Path

namespace Tour

def enter (s : Segment) (tour : Tour) : Tour := { tour with here := tour.here ++ [s] }

def leave (tour : Tour) : Tour := { tour with here := tour.here.dropLast }

def note (tour : Tour) : Tour := { tour with found := tour.found ++ [tour.here] }

end Tour

namespace Node

theorem mem_pathsBelow_iff {branches : Branches} {p : Path} :
    p ∈ pathsBelow branches ↔ ∃ b ∈ branches, ∃ q ∈ b.2.paths, p = b.1 :: q := by
  induction branches with
  | nil => simp [pathsBelow]
  | cons b rest ih => simp [pathsBelow, ih, eq_comm]

/-- Paths through different branches are in the order of the branches. -/
theorem pairwise_pathsBelow {branches : Branches} (h : Keyed.Ascending branchEdge branches)
    (hbelow : ∀ b ∈ branches, b.2.paths.Pairwise fun p q => compare p q = .lt) :
    (pathsBelow branches).Pairwise fun p q => compare p q = .lt := by
  induction branches with
  | nil => exact .nil
  | cons b rest ih =>
    refine List.pairwise_append.2 ⟨?_, ih h.tail fun b' hb' => hbelow b' (List.mem_cons_of_mem _ hb'), ?_⟩
    · refine List.pairwise_map.2 ((hbelow b List.mem_cons_self).imp fun {p q} hlt => ?_)
      rw [Path.compare_cons_self, hlt]
    · intro p hp q hq
      obtain ⟨p, -, rfl⟩ := List.mem_map.1 hp
      obtain ⟨b', hb', q, -, rfl⟩ := mem_pathsBelow_iff.1 hq
      exact Path.compare_cons_of_lt (h.head_lt hb') p q

/-- **The order of the paths**: a node before what is below it, and one branch before the next. -/
theorem pairwise_paths {c : Node} (h : c.Ordered) : c.paths.Pairwise fun p q => compare p q = .lt := by
  induction c using Node.induction with
  | mk rules branches ih =>
    refine List.pairwise_append.2 ⟨?_, pairwise_pathsBelow h.ascending fun b hb => ih b hb (h.subtree b hb), ?_⟩
    · split
      · exact .nil
      · exact List.pairwise_singleton _ _
    · -- The node itself, if it is listed, is at the empty path.
      intro p hp q hq
      obtain ⟨b, -, q, -, rfl⟩ := mem_pathsBelow_iff.1 hq
      split at hp
      · cases hp
      · rw [List.mem_singleton.1 hp, Path.compare_nil_cons]

/-- An entry for rules that have a predicate. -/
def mark (rules : Rules) : List Unit := if rules.isVoid then [] else [()]

theorem mem_mark_iff {rules : Rules} : () ∈ mark rules ↔ rules.isVoid = false := by
  unfold mark
  cases rules.isVoid <;> simp

theorem map_edges_paths (c : Node) : c.paths.map Path.edges = (c.gather mark).map Prod.fst := by
  induction c using Node.induction with
  | mk rules branches ih =>
    have htop : (if rules.isVoid then [] else [[]]).map Path.edges = ((mark rules).map fun x => ([], x)).map Prod.fst := by
      unfold mark
      cases rules.isVoid <;> rfl
    have hbelow : (pathsBelow branches).map Path.edges = (gatherBelow mark branches).map Prod.fst := by
      induction branches with
      | nil => rfl
      | cons b rest ihRest =>
        obtain ⟨hb, hrest⟩ := List.forall_mem_cons.1 ih
        have hmap : (b.2.paths.map (b.1 :: ·)).map Path.edges =
            ((b.2.gather mark).map fun x => (b.1.edge :: x.1, x.2)).map Prod.fst := by
          calc (b.2.paths.map (b.1 :: ·)).map Path.edges
              = (b.2.paths.map Path.edges).map (b.1.edge :: ·) := by simp [Path.edges]
            _ = ((b.2.gather mark).map Prod.fst).map (b.1.edge :: ·) := by rw [hb]
            _ = ((b.2.gather mark).map fun x => (b.1.edge :: x.1, x.2)).map Prod.fst := by simp
        rw [pathsBelow, gatherBelow, List.map_append, List.map_append, hmap, ihRest hrest]
    rw [paths, gather, List.map_append, List.map_append, htop, hbelow]

/-! ### One path for the whole tour -/

mutual

/-- Go through a node: note the path to it if it has a predicate, then enter and leave each branch. -/
def tour : Node → Tour → Tour
  | mk rules branches, tr => tourBelow branches (if rules.isVoid then tr else tr.note)

def tourBelow : Branches → Tour → Tour
  | [], tr => tr
  | (s, c) :: rest, tr => tourBelow rest (c.tour (tr.enter s)).leave

end

/-- **A tour of a node** ends where it began, and has found the paths below that place. -/
theorem tour_eq (c : Node) (tr : Tour) : c.tour tr = ⟨tr.here, tr.found ++ c.paths.map (tr.here ++ ·)⟩ := by
  induction c using Node.induction generalizing tr with
  | mk rules branches ih =>
    have hbelow : ∀ tr : Tour,
        tourBelow branches tr = ⟨tr.here, tr.found ++ (pathsBelow branches).map (tr.here ++ ·)⟩ := by
      induction branches with
      | nil => simp [tourBelow, pathsBelow]
      | cons b rest ihRest =>
        intro tr
        obtain ⟨hb, hrest⟩ := List.forall_mem_cons.1 ih
        -- A branch is left where it was entered, so the next one starts from the same path.
        rw [tourBelow, hb, ihRest hrest]
        simp [Tour.enter, Tour.leave, pathsBelow]
    rw [tour, hbelow, paths]
    cases rules.isVoid <;> simp [Tour.note]

end Node

/-! ## Trees -/

/-- The set of what stands in a list without repeats has as many elements as the list. -/
theorem encard_setOf_mem {α : Type} {l : List α} (h : l.Nodup) : {x | x ∈ l}.encard = l.length := by
  classical
  rw [← List.coe_toFinset, Set.encard_coe_eq_coe_finsetCard, List.toFinset_card_of_nodup h]

theorem mem_map_fst_iff {α : Type} {l : List (α × Unit)} {x : α} : x ∈ l.map Prod.fst ↔ (x, ()) ∈ l := by
  simp [Unique.exists_iff]

namespace RuleTree

theorem isVoid_rules_eq_false_iff {u : RuleTree} :
    u.rules.isVoid = false ↔ ∃ c ps, u.predicates? c = some ps ∧ ps ≠ [] := by
  rw [← Bool.not_eq_true, Rules.isVoid_iff_find? u.rules_ordered, not_forall]
  refine exists_congr fun c => ?_
  show ¬ (u.predicates? c).getD [] = [] ↔ _
  cases u.predicates? c <;> simp

/-- **What is listed** leads to nodes with a predicate. -/
theorem mem_map_edges_paths {t : RuleTree} {p : Path} :
    p.edges ∈ t.paths.map Path.edges ↔ ∃ u, t.get? p = some u ∧ u.rules.isVoid = false := by
  rw [paths, Node.map_edges_paths, mem_map_fst_iff, ← gather, mem_gather_iff]
  simp only [Node.mem_mark_iff]

theorem encard_places (t : RuleTree) :
    {edges | ∃ p : Path, p.edges = edges ∧ (t.get? p).isSome = true}.encard = t.size := by
  have hplaces : {edges | ∃ p : Path, p.edges = edges ∧ (t.get? p).isSome = true} =
      {edges | edges ∈ t.places.map Prod.fst} := by
    ext edges
    obtain ⟨q, rfl⟩ := Path.exists_edges edges
    have hq : q.edges ∈ t.places.map Prod.fst ↔ (t.get? q).isSome = true := mem_map_fst_iff.trans mem_places_iff
    refine Iff.trans ?_ hq.symm
    constructor
    · rintro ⟨p, hp, h⟩
      rwa [← get?_congr hp]
    · intro h
      exact ⟨q, rfl, h⟩
  have hnodup : (t.places.map Prod.fst).Nodup :=
    (nodup_gather (fun _ _ => List.nodup_singleton ()) t).map fun x y h => Prod.ext h rfl
  rw [hplaces, encard_setOf_mem hnodup, List.length_map, length_places]

theorem encard_facts (t : RuleTree) :
    {x : List Edge × Category × Predicate | ∃ q : Path, q.edges = x.1 ∧ t.Holds q x.2.1 x.2.2}.encard =
      t.predicateCount := by
  have hfacts : {x : List Edge × Category × Predicate | ∃ q : Path, q.edges = x.1 ∧ t.Holds q x.2.1 x.2.2} =
      {x | x ∈ t.facts} := by
    ext ⟨edges, c, p⟩
    constructor
    · rintro ⟨q, rfl, h⟩
      exact mem_facts_iff.2 h
    · intro h
      obtain ⟨q, rfl⟩ := Path.exists_edges edges
      exact ⟨q, rfl, mem_facts_iff.1 h⟩
  rw [hfacts, encard_setOf_mem (nodup_facts t), length_facts]

theorem labels_eq (t : RuleTree) : t.branches.map Prod.fst = t.node.branches.map Prod.fst := by
  rw [branches, List.map_map]
  exact List.attach_map_val (f := Prod.fst)

theorem pairwise_labels (t : RuleTree) : (t.branches.map Prod.fst).Pairwise fun s s' => compare s s' = .lt := by
  rw [labels_eq]
  exact List.pairwise_map.2 t.ordered.ascending

/-- **Traversals against look-up.** The paths go up strictly, so no two lead to the same place, and lead to the nodes
that have a set of predicates that is not empty; a tour with one path for the whole tree finds the same. There are as
many nodes as places that look-up finds, and as many predicates as facts. The labels below a node are literals and then
at most one capture. -/
theorem traversals_agree_with_lookup (t : RuleTree) :
    (t.paths.Pairwise fun p q => compare p q = .lt ∧ p.same q = false) ∧
      t.node.tour ⟨[], []⟩ = ⟨[], t.paths⟩ ∧
      (∀ p : Path, (∃ q ∈ t.paths, q.same p = true) ↔
        ∃ u c ps, t.get? p = some u ∧ u.predicates? c = some ps ∧ ps ≠ []) ∧
      {edges | ∃ p : Path, p.edges = edges ∧ (t.get? p).isSome = true}.encard = t.size ∧
      {x : List Edge × Category × Predicate | ∃ q : Path, q.edges = x.1 ∧ t.Holds q x.2.1 x.2.2}.encard =
        t.predicateCount ∧
      ∀ p u, t.get? p = some u →
        ∃ literals captures : List Segment, u.branches.map Prod.fst = literals ++ captures ∧ captures.length ≤ 1 ∧
          (∀ s ∈ literals, s.isCapture = false) ∧ ∀ s ∈ captures, s.isCapture = true := by
  refine ⟨?_, ?_, fun p => ?_, encard_places t, encard_facts t, fun p u _ => ?_⟩
  · exact (Node.pairwise_paths t.ordered).imp fun h => ⟨h, Path.same_eq_false_of_lt h⟩
  · rw [Node.tour_eq]
    simp [paths]
  · have hmem : (∃ q ∈ t.paths, q.same p = true) ↔ p.edges ∈ t.paths.map Path.edges := by
      simp only [Path.same_iff, List.mem_map]
    rw [hmem, mem_map_edges_paths]
    simp only [isVoid_rules_eq_false_iff, exists_and_left]
  · exact Segment.exists_captures_behind u.pairwise_labels

/-- A capture that was there before two literals, found again under another name, and a place without predicates. -/
theorem traversals_agree_below_capture :
    let t := ((empty.mergeAt [.capture "id", .literal "c"] (empty.add .read ⟨"p"⟩)).mergeAt [.literal "b"] empty).mergeAt
      [.literal "a"] ((empty.add .read ⟨"p"⟩).add .write ⟨"q"⟩)
    t.paths = [[.literal "a"], [.capture "id", .literal "c"]] ∧
      (∃ u c ps, t.get? [.capture "uid", .literal "c"] = some u ∧ u.predicates? c = some ps ∧ ps ≠ []) ∧
      (t.get? [.literal "b"]).isSome = true ∧ (¬ ∃ q ∈ t.paths, q.same [.literal "b"] = true) ∧
      {edges | ∃ p : Path, p.edges = edges ∧ (t.get? p).isSome = true}.encard = 5 ∧
      {x : List Edge × Category × Predicate | ∃ q : Path, q.edges = x.1 ∧ t.Holds q x.2.1 x.2.2}.encard = 3 ∧
      t.get? [] = some t ∧ t.branches.map Prod.fst = [.literal "a", .literal "b", .capture "id"] ∧
      ∃ literals captures : List Segment, t.branches.map Prod.fst = literals ++ captures ∧ captures.length ≤ 1 ∧
        (∀ s ∈ literals, s.isCapture = false) ∧ ∀ s ∈ captures, s.isCapture = true := by
  intro t
  obtain ⟨-, -, hlookup, hplaces, hfacts, hlabels⟩ := traversals_agree_with_lookup t
  have hsize : t.size = 5 := by decide
  have hcount : t.predicateCount = 3 := by decide
  rw [hsize] at hplaces
  rw [hcount] at hfacts
  exact ⟨by decide, (hlookup _).1 (by decide), by decide, by decide, hplaces, hfacts, rfl, by decide, hlabels [] t rfl⟩

end RuleTree

end AccessRules
