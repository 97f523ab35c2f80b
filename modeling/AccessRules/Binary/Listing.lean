import AccessRules.Binary.Blake3
import AccessRules.Tree.Basic

/-!
# Trees as lists of nodes

A tree is stored as a list of its nodes, each naming its parent by position and the segment that leads to it. A parent
stands before its children. `Listing.ofTree` lists the nodes from the top down and along the branches; `toTree` builds
the tree of any list in which parents come first, whatever the order is otherwise.

`fault?` finds the first reason why a list is no tree, or not one that `ofTree` could have listed: pruned, with the
counts that stand beside it, and with no edge or category twice.
-/

namespace AccessRules

/-- What is known of a stored tree without building it. -/
structure TreeInfo where
  nodeCount : Nat
  predicateCount : Nat
  /-- The hash of the text that the tree was compiled from. -/
  sourceDigest : Option Blake3.Digest
  deriving DecidableEq

namespace Listing

/-- One listed node. -/
structure Row where
  parent : Option Nat
  edge : Option Segment
  /-- As listed, in any order and with any repeats. -/
  rules : Rules
  deriving DecidableEq

mutual

/-- The rows of a node and of all below it, where the node itself stands at position `index`. -/
def rowsOf (index : Nat) (parent : Option Nat) (edge : Option Segment) : Node → List Row
  | .mk rules branches => ⟨parent, edge, rules⟩ :: rowsBelow index (index + 1) branches

def rowsBelow (parent next : Nat) : Branches → List Row
  | [] => []
  | (s, c) :: rest => rowsOf next (some parent) (some s) c ++ rowsBelow parent (next + c.size) rest

end

/-- The node of a row, with nothing below it. -/
def Row.tree (row : Row) : RuleTree :=
  row.rules.foldl (fun t r => r.2.foldl (fun t p => t.add r.1 p) t) .empty

/-- Put below a tree, which stands at position `index`, what the later rows list there. -/
def graft (index : Nat) (t : RuleTree) : List (Row × Nat) → RuleTree
  | [] => t
  | (row, i) :: later =>
    match row.parent, row.edge with
    | some p, some s =>
      if p = index then graft index (t.put s (graft i row.tree later)) later else graft index t later
    | _, _ => graft index t later

end Listing

/-- A stored tree: its nodes, and what is said of them beside. -/
structure Listing where
  info : TreeInfo
  rows : List Listing.Row
  deriving DecidableEq

namespace Listing

/-- The nodes of a tree, which is pruned first. -/
def ofTree (t : RuleTree) (source : Option String) : Listing :=
  let pruned := t.prune
  let rows := rowsOf 0 none none pruned.node
  ⟨⟨rows.length, pruned.predicateCount, source.map fun text => Blake3.hash (Utf8.encode text)⟩, rows⟩

/-- The tree that a list describes. -/
def toTree (l : Listing) : RuleTree :=
  match l.rows.zipIdx with
  | [] => .empty
  | (root, i) :: later => graft i root.tree later

/-! ## Faults -/

/-- Why a list is refused. -/
inductive Fault where
  | nodeCount (said listed : Nat)
  | predicateCount (said listed : Nat)
  | noRoot
  | linkedRoot
  | unlinked (index : Nat)
  | laterParent (index parent : Nat)
  | duplicateEdge (parent : Nat)
  | emptySet (index : Nat)
  | repeatedCategory (index : Nat)
  | emptyNode (index : Nat)
  deriving DecidableEq, Repr

def Fault.message : Fault → String
  | nodeCount said listed => "metadata says " ++ toString said ++ " nodes but payload has " ++ toString listed
  | predicateCount said listed => "metadata says " ++ toString said ++ " predicates but payload has " ++ toString listed
  | noRoot => "tree has no root node"
  | linkedRoot => "root node must have no parent and no edge"
  | unlinked index => "node " ++ toString index ++ " is missing its parent or edge"
  | laterParent index parent =>
    "node " ++ toString index ++ " names parent " ++ toString parent ++ ", which does not precede it"
  | duplicateEdge parent => "node " ++ toString parent ++ " has a duplicate child edge"
  | emptySet index => "node " ++ toString index ++ " has an empty predicate set"
  | repeatedCategory index => "node " ++ toString index ++ " repeats a category"
  | emptyNode index => "node " ++ toString index ++ " is empty"

/-- The number of listed predicates. -/
def listedPredicates : List Row → Nat
  | [] => 0
  | row :: rest => row.rules.count + listedPredicates rest

/-- The first row, from `index` on, that does not hang on an earlier one by an edge of its own. `seen` holds the edges
of the rows before, each with its parent. -/
def linkFault? (seen : List (Nat × Edge)) (index : Nat) : List Row → Option Fault
  | [] => none
  | row :: rest =>
    match row.parent, row.edge with
    | some p, some s =>
      if index ≤ p then some (.laterParent index p)
      else if (p, s.edge) ∈ seen then some (.duplicateEdge p)
      else linkFault? ((p, s.edge) :: seen) (index + 1) rest
    | _, _ => some (.unlinked index)

/-- The first rule of a row that is empty or whose category is among those before it. -/
def ruleFault? (index : Nat) (seen : List Category) : Rules → Option Fault
  | [] => none
  | (c, ps) :: rest =>
    if ps.isEmpty then some (.emptySet index)
    else if c ∈ seen then some (.repeatedCategory index)
    else ruleFault? index (c :: seen) rest

/-- Some row hangs on the one at `index`. -/
def hasChild (rows : List Row) (index : Nat) : Bool := rows.any fun row => row.parent = some index

/-- The first fault in the rules of the rows from `index` on; below the root, a row without rules needs a child. -/
def contentFault? (rows : List Row) (index : Nat) : List Row → Option Fault
  | [] => none
  | row :: rest =>
    (ruleFault? index [] row.rules).or <|
      if 0 < index && row.rules.isEmpty && !hasChild rows index then some (.emptyNode index)
      else contentFault? rows (index + 1) rest

/-- The first fault of a list. -/
def fault? (l : Listing) : Option Fault :=
  if l.info.nodeCount ≠ l.rows.length then some (.nodeCount l.info.nodeCount l.rows.length)
  else if l.info.predicateCount ≠ listedPredicates l.rows then
    some (.predicateCount l.info.predicateCount (listedPredicates l.rows))
  else
    match l.rows with
    | [] => some .noRoot
    | root :: rest =>
      if root.parent.isSome || root.edge.isSome then some .linkedRoot
      else (linkFault? [] 1 rest).or (contentFault? l.rows 0 l.rows)

end Listing

end AccessRules
