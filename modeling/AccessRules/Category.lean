import AccessRules.Keyed

/-!
# Rule categories

The eight operations that a rule can guard. They are in a fixed order (`all`), which is the order in which rules are
kept and shown, and each has one lower-case name. Names are read exactly (`ofName?`); `ofNameIgnoringCase?` also reads
near misses that differ in the case of ASCII letters, which strict dispatch rejects.
-/

namespace AccessRules

/-- An operation that a rule guards. -/
inductive Category where
  | read | create | update | delete | validate | write | index | children
  deriving DecidableEq, Repr

namespace Category

/-- All categories, in their order. -/
def all : List Category := [read, create, update, delete, validate, write, index, children]

/-- The position in `all`. -/
def position : Category → Nat
  | read => 0
  | create => 1
  | update => 2
  | delete => 3
  | validate => 4
  | write => 5
  | index => 6
  | children => 7

def name : Category → String
  | read => "read"
  | create => "create"
  | update => "update"
  | delete => "delete"
  | validate => "validate"
  | write => "write"
  | index => "index"
  | children => "children"

/-- The category at a position. -/
def ofPosition? (n : Nat) : Option Category := all[n]?

/-- The category with exactly this name. -/
def ofName? (text : String) : Option Category := all.find? fun c => c.name = text

/-- The category whose name is `text` up to the case of ASCII letters. -/
def ofNameIgnoringCase? (text : String) : Option Category :=
  all.find? fun c => c.name.toList = text.toList.map Char.toLower

/-- What is said of a text that is no category's name. -/
def unknownMessage (text : String) : String := "unknown rule category '" ++ text ++ "'"

/-! ## The order -/

instance : Ord Category := ⟨fun a b => compare a.position b.position⟩

theorem ofPosition?_position (c : Category) : ofPosition? c.position = some c := by cases c <;> rfl

theorem position_inj {a b : Category} (h : a.position = b.position) : a = b :=
  Option.some.inj (by rw [← ofPosition?_position a, h, ofPosition?_position b])

instance : Std.TransOrd Category where
  eq_swap := Std.OrientedOrd.eq_swap (α := Nat)
  isLE_trans := Std.TransOrd.isLE_trans (α := Nat)

instance : Std.LawfulEqOrd Category where
  compare_self := Std.ReflOrd.compare_self (α := Nat)
  eq_of_compare h := position_inj (Std.LawfulEqOrd.eq_of_compare (α := Nat) h)

theorem ofName?_name (c : Category) : ofName? c.name = some c := by cases c <;> decide

theorem name_of_ofName? {text : String} {c : Category} (h : ofName? text = some c) : c.name = text := by
  simpa using List.find?_some h

end Category

end AccessRules
