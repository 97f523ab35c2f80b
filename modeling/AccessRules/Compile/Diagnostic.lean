import AccessRules.Category
import AccessRules.Path.Expression

/-!
# Diagnostics

A scope that fails is left out of the compiled tree, and a diagnostic tells where and why.
-/

namespace AccessRules

/-- Why a scope failed. -/
inductive CompileError where
  /-- The expression that opens the scope leads nowhere. -/
  | resolve (error : ResolveError)
  /-- Under the name of a category stands something else than a predicate. -/
  | expectedPredicate (tag : String)
  /-- Under the tag of a step down stands a predicate. -/
  | expectedBody (tag : String)
  /-- The tag is the name of a category but for the case of letters. -/
  | categoryCollision (tag : String) (category : Category)
  /-- As many scopes as may be are open already. -/
  | depthExceeded (limit : Nat)
  /-- The scope itself gave up on a predicate. -/
  | predicate (detail : String)
  deriving DecidableEq, Repr

def CompileError.message : CompileError → String
  | resolve error => error.message
  | expectedPredicate tag => "directive '" ++ tag ++ "' is a rule category and expects a predicate"
  | expectedBody tag => "directive '" ++ tag ++ "' names a child path and expects a nested body"
  | categoryCollision tag category => "tag '" ++ tag ++ "' collides with rule category '" ++ category.name ++ "'"
  | depthExceeded limit => "scope nesting exceeds limit of " ++ toString limit
  | predicate detail => "predicate construction failed: " ++ detail

/-- A scope that failed: its absolute path, or that of the scope around it where its own could not be resolved. -/
structure Diagnostic where
  path : Path
  error : CompileError
  deriving DecidableEq, Repr

def Diagnostic.render (d : Diagnostic) : String := d.path.render ++ ": " ++ d.error.message

/-- What is said when a whole tree was asked for and these scopes are missing. -/
def Diagnostic.incompleteMessage (ds : List Diagnostic) : String :=
  "compilation dropped " ++ toString ds.length ++ " scope(s), first at " ++
    ((ds.head?.map fun d => d.path.render).getD "/")

end AccessRules
