import AccessRules.Path.Basic
import AccessRules.Rules

/-!
# Nodes of a rule tree

A node holds the rules of one place and its branches: for each edge that leads on, the segment it is labelled with
and the node below. The operations keep rules and branches in order when they find them so (`Tree/Ordered.lean`).

Where an operation meets an edge that is there already, the label of that branch stays, so the first name of a capture
is the one that is kept.
-/

namespace AccessRules

/-- A place, and below it the nodes that its branches lead to. -/
inductive Node where
  | mk (rules : Rules) (branches : List (Segment × Node))

/-- The labelled edges out of a node. -/
abbrev Branches := List (Segment × Node)

namespace Node

/-- A fact about all nodes follows for a node from the same fact about the nodes below it. -/
theorem induction {motive : Node → Prop}
    (mk : ∀ rules branches, (∀ b ∈ branches, motive b.2) → motive (.mk rules branches)) (t : Node) : motive t :=
  @Node.rec motive (fun bs => ∀ b ∈ bs, motive b.2) (fun b => motive b.2) mk
    (fun _ h => nomatch h)
    (fun _ _ hb hbs _ h => (List.mem_cons.1 h).elim (fun e => e ▸ hb) (hbs _))
    (fun _ _ h => h) t

/-! ## Looking -/

/-- No rules and no branches. -/
def empty : Node := mk [] []

def rules : Node → Rules
  | mk rules _ => rules

def branches : Node → Branches
  | mk _ branches => branches

/-- The edge of a branch, which is its key. -/
def branchEdge (b : Segment × Node) : Edge := b.1.edge

/-- The branch along an edge. -/
def branch? (t : Node) (e : Edge) : Option (Segment × Node) := Keyed.find? branchEdge e t.branches

/-- The node below, along the edge of a segment. -/
def child? (t : Node) (s : Segment) : Option Node := (t.branch? s.edge).map Prod.snd

/-- The node that a path leads to. -/
def get? : Node → Path → Option Node
  | t, [] => some t
  | t, s :: p =>
    match t.child? s with
    | none => none
    | some c => c.get? p

/-- No predicate here and nothing below. -/
def isEmpty (t : Node) : Bool := t.rules.isVoid && t.branches.isEmpty

mutual

/-- The number of nodes, this one included. -/
def size : Node → Nat
  | mk _ branches => 1 + sizeBelow branches

def sizeBelow : Branches → Nat
  | [] => 0
  | (_, c) :: rest => c.size + sizeBelow rest

end

mutual

/-- The number of predicates over all categories and nodes. -/
def predicateCount : Node → Nat
  | mk rules branches => rules.count + predicateCountBelow branches

def predicateCountBelow : Branches → Nat
  | [] => 0
  | (_, c) :: rest => c.predicateCount + predicateCountBelow rest

end

mutual

/-- The paths of the nodes that have a predicate, from the top down and along the branches. -/
def paths : Node → List Path
  | mk rules branches => (if rules.isVoid then [] else [[]]) ++ pathsBelow branches

def pathsBelow : Branches → List Path
  | [] => []
  | (s, c) :: rest => c.paths.map (s :: ·) ++ pathsBelow rest

end

mutual

/-- Are two nodes the same up to the names of captures? -/
def same : Node → Node → Bool
  | mk rules branches, mk rules' branches' => rules = rules' && sameBelow branches branches'

def sameBelow : Branches → Branches → Bool
  | [], [] => true
  | (s, c) :: rest, (s', c') :: rest' => s.edge = s'.edge && c.same c' && sameBelow rest rest'
  | _, _ => false

end

mutual

/-- The rules and branches of a node, one to a line behind `pad`, what is below a branch two columns further in. -/
def render (pad : String) : Node → String
  | mk rules branches =>
    String.join (rules.filterMap fun r => (Predicates.anyOf r.2).map fun joined =>
      pad ++ "." ++ r.1.name ++ " = " ++ joined ++ "\n") ++ renderBelow pad branches

def renderBelow (pad : String) : Branches → String
  | [] => ""
  | (s, c) :: rest => pad ++ s.render ++ "\n" ++ render (pad ++ "  ") c ++ renderBelow pad rest

end

/-! ## Changing -/

/-- Add a predicate here. -/
def add (t : Node) (c : Category) (p : Predicate) : Node := mk (t.rules.add c p) t.branches

/-- Put `f` of the node below, or of `none`, in the place of that node; an answer `none` cuts the branch off. A branch
that is there keeps its label, a new one is labelled with `s`. -/
def alterBranch (s : Segment) (f : Option Node → Option Node) (branches : Branches) : Branches :=
  Keyed.alter branchEdge s.edge
    (fun old => (f (old.map Prod.snd)).map fun c => ((old.map Prod.fst).getD s, c)) branches

/-- Put a node below this one, in the place of the node there. -/
def put (t : Node) (s : Segment) (c : Node) : Node := mk t.rules (alterBranch s (fun _ => some c) t.branches)

mutual

/-- Union: the rules of both, and below each edge of either the union of what is there. -/
def merge : Node → Node → Node
  | t, mk rules branches => mk (t.rules.merge rules) (mergeBelow t.branches branches)
termination_by structural _ a => a

def mergeBelow : Branches → Branches → Branches
  | acc, [] => acc
  | acc, (s, c) :: rest => mergeBelow (alterBranch s (fun old => some ((old.getD empty).merge c)) acc) rest
termination_by structural _ branches => branches

end

/-- Union with `a` at the end of a path, which is laid where it is missing. -/
def mergeAt : Node → Path → Node → Node
  | t, [], a => t.merge a
  | t, s :: p, a => mk t.rules (alterBranch s (fun old => some ((old.getD empty).mergeAt p a)) t.branches)

mutual

/-- Drop empty sets of predicates and, from the bottom up, nodes that are empty. -/
def prune : Node → Node
  | mk rules branches => mk rules.prune (pruneBelow branches)

def pruneBelow : Branches → Branches
  | [] => []
  | (s, c) :: rest => if c.prune.isEmpty then pruneBelow rest else (s, c.prune) :: pruneBelow rest

end

/-- Union with the pruned `a` at the end of a path, leaving no empty node on the way there. -/
def mergePruned : Node → Path → Node → Node
  | t, [], a => t.merge a.prune
  | t, s :: p, a =>
    mk t.rules (alterBranch s (fun old =>
      let c := (old.getD empty).mergePruned p a
      if c.isEmpty then none else some c) t.branches)

end Node

end AccessRules
