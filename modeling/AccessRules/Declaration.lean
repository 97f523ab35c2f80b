import AccessRules.Category
import AccessRules.Predicate

/-!
# Declarations

What a scope declares, as data. A declaration adds one predicate, works off a list of directives, or opens a scope
further down. A directive is a tag with a value: under the name of a category a predicate belongs, under any other tag,
which stands for one step down, a list of directives or of declarations.

Nothing here is checked; what does not fit is found when the scope is compiled.
-/

namespace AccessRules

mutual

/-- One statement about the place where a scope stands. -/
inductive Declaration where
  /-- Add a predicate to a category. -/
  | add (category : Category) (predicate : Predicate)
  /-- Work off directives, in order. -/
  | authorize (directives : List Directive)
  /-- Open a scope at a path expression, relative to this place. -/
  | within (expr : String) (body : List Declaration)

/-- A tag and what is said under it. -/
inductive Directive where
  | mk (tag : String) (value : Directive.Value)

/-- What may stand under a tag. -/
inductive Directive.Value where
  | predicate (p : Predicate)
  | nested (directives : List Directive)
  | body (declarations : List Declaration)

end

namespace Directive

def tag : Directive → String
  | mk tag _ => tag

def value : Directive → Value
  | mk _ value => value

end Directive

/-- A predicate for the category `validate`. -/
def Declaration.validate (p : Predicate) : Declaration := .add .validate p

end AccessRules
