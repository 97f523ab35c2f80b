import AccessRules.Binary.Listing
import AccessRules.Proofs.Pruning

/-!
# The rows of a tree

Which rows `rowsOf` and `rowsBelow` list: as many as there are nodes, with the predicates of these nodes. The rows below
a node are closed: each hangs on this node by one of its branches, or on a row among them that stands before it
(`hangs_of_mem`), and no two hang on the same row by the same edge (`nodup_links`). In a pruned tree every row has rules
or a row that hangs on it (`sound_of_mem`).
-/

namespace AccessRules

/-- A node to which a branch of a pruned tree may lead. -/
structure Node.Kept (c : Node) : Prop where
  ordered : c.Ordered
  pruned : RuleTree.Pruned ⟨c, ordered⟩
  nonempty : c.isEmpty = false

theorem RuleTree.Pruned.kept {c : Node} {h : c.Ordered} (hp : Pruned ⟨c, h⟩) : ∀ b ∈ c.branches, b.2.Kept := by
  intro b hb
  have hbranch : branch? ⟨c, h⟩ b.1.edge = some (b.1, ⟨b.2, h.subtree b hb⟩) :=
    branch?_eq_iff.2 ((Keyed.find?_eq_some_iff h.ascending).2 ⟨hb, rfl⟩)
  exact ⟨h.subtree b hb, hp.subtree hbranch, hp.nonempty hbranch⟩

/-- A node that is kept for no rules of its own is kept for a branch. -/
theorem Node.Kept.branches_ne_nil {c : Node} (h : c.Kept) (hr : c.rules = []) : c.branches ≠ [] := by
  intro hb
  have hne := h.nonempty
  rw [isEmpty, hr, hb] at hne
  cases hne

namespace Listing

theorem rowsOf_eq (index : Nat) (parent : Option Nat) (edge : Option Segment) (c : Node) :
    rowsOf index parent edge c = ⟨parent, edge, c.rules⟩ :: rowsBelow index (index + 1) c.branches := by
  cases c
  rfl

theorem rowsBelow_cons (parent next : Nat) (s : Segment) (c : Node) (rest : Branches) :
    rowsBelow parent next ((s, c) :: rest) =
      ⟨some parent, some s, c.rules⟩ ::
        (rowsBelow next (next + 1) c.branches ++ rowsBelow parent (next + c.size) rest) := by
  rw [rowsBelow, rowsOf_eq, List.cons_append]

/-! ## How many -/

theorem length_rowsBelow (parent next : Nat) (branches : Branches) :
    (rowsBelow parent next branches).length = Node.sizeBelow branches := by
  induction branches using Node.induction_below generalizing parent next with
  | nil => rfl
  | cons s c rest ihc ihr =>
    rw [rowsBelow_cons, List.length_cons, List.length_append, ihc, ihr, Node.sizeBelow, Node.size_eq]
    omega

theorem length_rowsOf (index : Nat) (parent : Option Nat) (edge : Option Segment) (c : Node) :
    (rowsOf index parent edge c).length = c.size := by
  rw [rowsOf_eq, List.length_cons, length_rowsBelow, Node.size_eq, Nat.add_comm]

theorem listedPredicates_append : ∀ rows rows' : List Row,
    listedPredicates (rows ++ rows') = listedPredicates rows + listedPredicates rows'
  | [], _ => (Nat.zero_add _).symm
  | row :: rows, rows' => by
    rw [List.cons_append, listedPredicates, listedPredicates_append rows rows', listedPredicates, Nat.add_assoc]

theorem listedPredicates_rowsBelow (parent next : Nat) (branches : Branches) :
    listedPredicates (rowsBelow parent next branches) = Node.predicateCountBelow branches := by
  induction branches using Node.induction_below generalizing parent next with
  | nil => rfl
  | cons s c rest ihc ihr =>
    rw [rowsBelow_cons, listedPredicates, listedPredicates_append, ihc, ihr, Node.predicateCountBelow,
      Node.predicateCount_eq, Nat.add_assoc]

theorem listedPredicates_rowsOf (index : Nat) (parent : Option Nat) (edge : Option Segment) (c : Node) :
    listedPredicates (rowsOf index parent edge c) = c.predicateCount := by
  rw [rowsOf_eq, listedPredicates, listedPredicates_rowsBelow, Node.predicateCount_eq]

/-! ## On what they hang -/

/-- The rows below a node with their positions. -/
theorem zipIdx_rowsBelow_cons (parent next : Nat) (s : Segment) (c : Node) (rest : Branches) :
    (rowsBelow parent next ((s, c) :: rest)).zipIdx next =
      (⟨some parent, some s, c.rules⟩, next) :: ((rowsBelow next (next + 1) c.branches).zipIdx (next + 1) ++
        (rowsBelow parent (next + c.size) rest).zipIdx (next + c.size)) := by
  have hlen : next + 1 + Node.sizeBelow c.branches = next + c.size := by rw [Node.size_eq, Nat.add_assoc]
  rw [rowsBelow_cons, List.zipIdx_cons, List.zipIdx_append, length_rowsBelow, hlen]

theorem exists_mem_zipIdx {rows : List Row} {row : Row} (h : row ∈ rows) (n : Nat) : ∃ i, (row, i) ∈ rows.zipIdx n := by
  obtain ⟨i, hi⟩ := List.getElem?_of_mem h
  exact ⟨n + i, List.mk_add_mem_zipIdx_iff_getElem?.2 hi⟩

/-- A row below a node hangs on this node by one of its branches, or on a row below it that stands before its own. -/
def Hangs (parent next : Nat) (branches : Branches) (x : Row × Nat) : Prop :=
  ∃ p s, x.1.parent = some p ∧ x.1.edge = some s ∧ p < x.2 ∧
    (p = parent ∧ (∃ b ∈ branches, b.1 = s) ∨ next ≤ p ∧ p < next + Node.sizeBelow branches)

theorem hangs_of_mem {parent next : Nat} (hn : parent < next) {branches : Branches} {x : Row × Nat}
    (hx : x ∈ (rowsBelow parent next branches).zipIdx next) : Hangs parent next branches x := by
  induction branches using Node.induction_below generalizing parent next with
  | nil => cases hx
  | cons s c rest ihc ihr =>
    have hsize : Node.sizeBelow ((s, c) :: rest) = 1 + Node.sizeBelow c.branches + Node.sizeBelow rest := by
      rw [Node.sizeBelow, Node.size_eq]
    rw [zipIdx_rowsBelow_cons, List.mem_cons, List.mem_append] at hx
    rcases hx with rfl | hx | hx
    · exact ⟨parent, s, rfl, rfl, hn, .inl ⟨rfl, (s, c), List.mem_cons_self, rfl⟩⟩
    · obtain ⟨p, s', hp, hs, hlt, hwhere⟩ := ihc (Nat.lt_succ_self next) hx
      refine ⟨p, s', hp, hs, hlt, .inr ?_⟩
      omega
    · obtain ⟨p, s', hp, hs, hlt, hwhere⟩ := ihr (by omega) hx
      refine ⟨p, s', hp, hs, hlt, ?_⟩
      rcases hwhere with ⟨rfl, b, hb, rfl⟩ | hwhere
      · exact .inl ⟨rfl, b, List.mem_cons_of_mem _ hb, rfl⟩
      · have := Node.size_eq c
        exact .inr (by omega)

theorem parent_of_mem {parent next : Nat} (hn : parent < next) {branches : Branches} {x : Row × Nat}
    (hx : x ∈ (rowsBelow parent next branches).zipIdx next) {p : Nat} (hp : x.1.parent = some p) :
    p = parent ∨ next ≤ p ∧ p < next + Node.sizeBelow branches := by
  obtain ⟨p', _, hp', -, -, hwhere⟩ := hangs_of_mem hn hx
  cases hp.symm.trans hp'
  exact hwhere.imp_left And.left

/-- What a row hangs on, and by which edge. -/
def Row.link? (row : Row) : Option (Nat × Edge) :=
  match row.parent, row.edge with
  | some p, some s => some (p, s.edge)
  | _, _ => none

def links (rows : List Row) : List (Nat × Edge) := rows.filterMap Row.link?

theorem mem_links_rowsBelow {parent next : Nat} (hn : parent < next) {branches : Branches} {l : Nat × Edge}
    (hl : l ∈ links (rowsBelow parent next branches)) :
    l.1 = parent ∧ (∃ b ∈ branches, b.1.edge = l.2) ∨ next ≤ l.1 ∧ l.1 < next + Node.sizeBelow branches := by
  obtain ⟨row, hrow, hlink⟩ := List.mem_filterMap.1 hl
  obtain ⟨i, hx⟩ := exists_mem_zipIdx hrow next
  obtain ⟨p, s, hp, hs, -, hwhere⟩ := hangs_of_mem hn hx
  rw [Row.link?, hp, hs] at hlink
  cases hlink
  rcases hwhere with ⟨rfl, b, hb, rfl⟩ | hwhere
  · exact .inl ⟨rfl, b, hb, rfl⟩
  · exact .inr hwhere

theorem nodup_links {parent next : Nat} (hn : parent < next) {branches : Branches}
    (h : Keyed.Ascending Node.branchEdge branches) (hb : ∀ b ∈ branches, b.2.Ordered) :
    (links (rowsBelow parent next branches)).Nodup := by
  induction branches using Node.induction_below generalizing parent next with
  | nil => exact List.nodup_nil
  | cons s c rest ihc ihr =>
    have hlinks : links (rowsBelow parent next ((s, c) :: rest)) = (parent, s.edge) ::
        (links (rowsBelow next (next + 1) c.branches) ++ links (rowsBelow parent (next + c.size) rest)) := by
      rw [rowsBelow_cons]
      simp [links, Row.link?]
    have hc := hb _ List.mem_cons_self
    have hne : ∀ b ∈ rest, b.1.edge ≠ s.edge := Keyed.find?_eq_none_iff.1 (Node.find?_rest_eq_none h)
    have hsize := Node.size_eq c
    rw [hlinks, List.nodup_cons, List.nodup_append]
    refine ⟨fun hmem => ?_, ihc (by omega) hc.ascending hc.subtree,
      ihr (by omega) h.tail fun b hb' => hb b (List.mem_cons_of_mem _ hb'), fun l hl l' hl' heq => ?_⟩
    · rcases List.mem_append.1 hmem with hmem | hmem
      · rcases mem_links_rowsBelow (Nat.lt_succ_self next) hmem with ⟨heq, -⟩ | hwhere <;> simp only at * <;> omega
      · rcases mem_links_rowsBelow (by omega) hmem with ⟨-, b, hb', heq⟩ | hwhere
        · exact hne b hb' heq
        · simp only at hwhere
          omega
    · subst heq
      rcases mem_links_rowsBelow (Nat.lt_succ_self next) hl with ⟨heq, -⟩ | hwhere <;>
        rcases mem_links_rowsBelow (by omega) hl' with ⟨heq', -⟩ | hwhere' <;> omega

/-! ## What they hold -/

/-- A row as a pruned tree has it: its rules are in order, without empty sets, and if it has none then some row hangs
on it. -/
structure Sound (rows : List Row) (x : Row × Nat) : Prop where
  ordered : x.1.rules.Ordered
  nonempty : ∀ r ∈ x.1.rules, r.2 ≠ []
  needed : x.1.rules = [] → ∃ row ∈ rows, row.parent = some x.2

theorem Sound.mono {rows rows' : List Row} {x : Row × Nat} (h : Sound rows x) (hsub : rows ⊆ rows') :
    Sound rows' x where
  ordered := h.ordered
  nonempty := h.nonempty
  needed hr := by
    obtain ⟨row, hrow, hp⟩ := h.needed hr
    exact ⟨row, hsub hrow, hp⟩

theorem sound_of_mem {parent next : Nat} {branches : Branches} (h : ∀ b ∈ branches, b.2.Kept) {x : Row × Nat}
    (hx : x ∈ (rowsBelow parent next branches).zipIdx next) : Sound (rowsBelow parent next branches) x := by
  induction branches using Node.induction_below generalizing parent next with
  | nil => cases hx
  | cons s c rest ihc ihr =>
    have hc := h _ List.mem_cons_self
    rw [zipIdx_rowsBelow_cons, List.mem_cons, List.mem_append] at hx
    rw [rowsBelow_cons]
    rcases hx with rfl | hx | hx
    · refine ⟨hc.ordered.rules, hc.pruned.rules, fun hr => ?_⟩
      obtain ⟨⟨s', c'⟩, rest', hb⟩ := List.exists_cons_of_ne_nil (hc.branches_ne_nil hr)
      refine ⟨⟨some next, some s', c'.rules⟩, ?_, rfl⟩
      rw [hb, rowsBelow_cons]
      exact List.mem_cons_of_mem _ List.mem_cons_self
    · refine (ihc hc.pruned.kept hx).mono fun row hrow => ?_
      exact List.mem_cons_of_mem _ (List.mem_append_left _ hrow)
    · refine (ihr (fun b hb => h b (List.mem_cons_of_mem _ hb)) hx).mono fun row hrow => ?_
      exact List.mem_cons_of_mem _ (List.mem_append_right _ hrow)

end Listing

end AccessRules
