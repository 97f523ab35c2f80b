import AccessRules.Keyed

/-!
# Predicates and sets of them

A predicate is an expression that some other tool understands; here it is compared by its text and handed on. A set of
predicates is a list in ascending order of their texts, so a set has one form and is shown in one order.
-/

namespace AccessRules

/-- An opaque boolean expression. -/
structure Predicate where
  text : String
  deriving DecidableEq, Repr

/-- Predicates as a set: a list that ascends by text when built by the operations here. -/
abbrev Predicates := List Predicate

namespace Predicates

/-- The order in which a set is kept, without repeats. -/
abbrev Ordered (ps : Predicates) : Prop := Keyed.Ascending Predicate.text ps

/-- Add every predicate of a list. -/
def union (ps : Predicates) (new : List Predicate) : Predicates := Keyed.insertAll Predicate.text ps new

/-- The set of the predicates of a list. -/
def ofList (ps : List Predicate) : Predicates := union [] ps

/-- One expression that holds when some predicate of the set holds: none for the empty set, the predicate itself for
a set of one, else all of them in brackets, joined by `||`. -/
def anyOf : Predicates → Option String
  | [] => none
  | [p] => some p.text
  | ps => some (" || ".intercalate (ps.map fun p => "(" ++ p.text ++ ")"))

theorem ordered_union {ps : Predicates} (h : ps.Ordered) (new : List Predicate) : (ps.union new).Ordered :=
  Keyed.ascending_insertAll h new

theorem ordered_ofList (ps : List Predicate) : (ofList ps).Ordered :=
  ordered_union Keyed.ascending_nil ps

end Predicates

end AccessRules
