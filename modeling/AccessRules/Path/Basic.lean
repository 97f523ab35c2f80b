import AccessRules.Keyed

/-!
# Segments and paths

A path leads from one node of a rule tree to another, the empty path to the node itself. Its segments are written on the
edges of the tree: literal text, which matches that key alone, or a capture, which matches any key and gives it a name.
Two captures are the same edge whatever their names, and `edge` is a segment with the name forgotten. Segments are
ordered by their edge: literals by text, and the capture after every literal. Paths are joined by appending, and
compared segment by segment, so in paths as well captures count as equal whatever their names.
-/

namespace AccessRules

/-! ## Segments -/

/-- One step of a path, as written. -/
inductive Segment where
  | literal (text : String)
  | capture (name : String)
  deriving DecidableEq, Repr

/-- One step of a path, captures being alike. -/
inductive Edge where
  | literal (text : String)
  | capture
  deriving DecidableEq, Repr

namespace Edge

/-- Literals by text, the capture last. -/
protected def compare : Edge → Edge → Ordering
  | literal a, literal b => Ord.compare a b
  | literal _, capture => .lt
  | capture, literal _ => .gt
  | capture, capture => .eq

instance : Ord Edge := ⟨Edge.compare⟩

instance : Std.TransOrd Edge where
  eq_swap {a b} := by
    cases a <;> cases b
    · exact Std.OrientedOrd.eq_swap (α := String)
    all_goals rfl
  isLE_trans {a b c} hab hbc := by
    cases a <;> cases b <;> cases c <;> try trivial
    exact Std.TransOrd.isLE_trans (α := String) hab hbc

instance : Std.LawfulEqOrd Edge where
  compare_self {a} := by
    cases a
    · exact Std.ReflOrd.compare_self (α := String)
    · rfl
  eq_of_compare {a b} h := by
    cases a <;> cases b <;> try trivial
    exact congrArg _ (Std.LawfulEqOrd.eq_of_compare (α := String) h)

end Edge

namespace Segment

/-- The segment without the name of its capture. -/
def edge : Segment → Edge
  | literal text => .literal text
  | capture _ => .capture

/-- The literal text or the captured name. -/
def label : Segment → String
  | literal text => text
  | capture name => name

def isCapture : Segment → Bool
  | literal _ => false
  | capture _ => true

/-- A tag as exactly one segment: `$` and a name is a capture, all else a literal, slashes and blanks included. -/
def ofTag (tag : String) : Segment :=
  match tag.toList with
  | '$' :: c :: name => capture (String.ofList (c :: name))
  | _ => literal tag

/-- The text of a segment; a capture is marked by `$`. -/
def render : Segment → String
  | literal text => text
  | capture name => "$" ++ name

instance : Ord Segment := ⟨fun a b => compare a.edge b.edge⟩

theorem compare_eq (a b : Segment) : compare a b = compare a.edge b.edge := rfl

instance : Std.TransOrd Segment where
  eq_swap := Std.OrientedOrd.eq_swap (α := Edge)
  isLE_trans := Std.TransOrd.isLE_trans (α := Edge)

end Segment

/-! ## Paths -/

/-- Segments from the top down. -/
abbrev Path := List Segment

namespace Path

/-- The path without the names of its captures: two paths lead to the same place iff their edges are the same. -/
def edges (p : Path) : List Edge := p.map Segment.edge

/-- Do two paths lead to the same place? -/
def same (p q : Path) : Bool := p.edges = q.edges

/-- The captured names, outermost first. -/
def captures (p : Path) : List String := (p.filter Segment.isCapture).map Segment.label

/-- Every segment behind a slash, and a slash alone for the empty path. -/
def render : Path → String
  | [] => "/"
  | p => String.join (p.map fun s => "/" ++ s.render)

end Path

end AccessRules
