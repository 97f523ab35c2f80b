import AccessRules.Tree.Ordered

/-!
# Rule trees

A rule tree is a node in order. What it holds determines it: for every path the rules at its end, and for every branch
the label on it. Trees are grown by `add`, `attach` and `mergeAt`, and `prune` takes away whatever holds no predicate.
-/

namespace AccessRules

/-- A node whose rules and branches, here and below, are in order. -/
@[ext] structure RuleTree where
  node : Node
  ordered : node.Ordered

namespace RuleTree

/-- The tree without rules and branches. -/
def empty : RuleTree := ⟨.empty, Node.ordered_empty⟩

instance : Inhabited RuleTree := ⟨empty⟩

/-! ## Looking -/

/-- The rules at the top. -/
def rules (t : RuleTree) : Rules := t.node.rules

/-- The predicates declared at the top for a category. -/
def predicates? (t : RuleTree) (c : Category) : Option Predicates := t.rules.find? c

/-- Does the top have this predicate for this category? -/
def has (t : RuleTree) (c : Category) (p : Predicate) : Bool := t.rules.has c p

/-- The branches from the top, in order. -/
def branches (t : RuleTree) : List (Segment × RuleTree) :=
  t.node.branches.attach.map fun b => (b.1.1, ⟨b.1.2, t.ordered.subtree b.1 b.2⟩)

/-- The tree below the top along the edge of a segment. -/
def child? (t : RuleTree) (s : Segment) : Option RuleTree :=
  match h : t.node.child? s with
  | none => none
  | some c => some ⟨c, t.ordered.child? h⟩

/-- The tree at the end of a path. -/
def get? (t : RuleTree) (p : Path) : Option RuleTree :=
  match h : t.node.get? p with
  | none => none
  | some c => some ⟨c, t.ordered.get? h⟩

/-- No predicate at the top and nothing below. -/
def isEmpty (t : RuleTree) : Bool := t.node.isEmpty

/-- The number of nodes, the top included. -/
def size (t : RuleTree) : Nat := t.node.size

/-- The number of predicates over all categories and nodes. -/
def predicateCount (t : RuleTree) : Nat := t.node.predicateCount

/-- The paths of the nodes that have a predicate, from the top down and along the branches. -/
def paths (t : RuleTree) : List Path := t.node.paths

/-- Are two trees the same up to the names of captures? -/
def same (t u : RuleTree) : Bool := t.node.same u.node

/-- The tree as indented lines. -/
def render (t : RuleTree) : String := t.node.render ""

/-! ## Growing and pruning -/

/-- Add a predicate at the top. -/
def add (t : RuleTree) (c : Category) (p : Predicate) : RuleTree := ⟨t.node.add c p, t.ordered.add c p⟩

/-- Put a tree below the top, in the place of what is there. -/
def put (t : RuleTree) (s : Segment) (c : RuleTree) : RuleTree := ⟨t.node.put s c.node, t.ordered.put s c.ordered⟩

/-- Union: the rules of both, and below each edge of either the union of what is there. -/
def merge (t a : RuleTree) : RuleTree := ⟨t.node.merge a.node, t.ordered.merge a.node⟩

/-- Union with `a` at the end of a path, which is laid where it is missing. -/
def mergeAt (t : RuleTree) (p : Path) (a : RuleTree) : RuleTree :=
  ⟨t.node.mergeAt p a.node, t.ordered.mergeAt a.node p⟩

/-- Union with `a` at the end of a path; no target counts as the empty one. -/
def mergeRules (target : Option RuleTree) (p : Path) (a : RuleTree) : RuleTree := (target.getD empty).mergeAt p a

/-- Union with `a` one step below the top. -/
def attach (t : RuleTree) (s : Segment) (a : RuleTree) : RuleTree := t.mergeAt [s] a

/-- Drop empty sets of predicates and empty trees below. -/
def prune (t : RuleTree) : RuleTree := ⟨t.node.prune, t.ordered.prune⟩

/-- Union with the pruned `a` at the end of a path, leaving no empty tree on the way there. -/
def mergePruned (t : RuleTree) (p : Path) (a : RuleTree) : RuleTree :=
  ⟨t.node.mergePruned p a.node, t.ordered.mergePruned a.node p⟩

end RuleTree

end AccessRules
