import AccessRules.Compile.Diagnostic
import AccessRules.Declaration
import AccessRules.Tree.Basic

/-!
# Scripts of a scope

A script says what the body of a scope does, one operation after the other: it adds predicates to the place of the
scope, looks at what has come together there, and opens scopes further down, each with a script of its own. What an
operation answers decides how the script goes on. It may leave notes on the way, of a type `ν` of its author's choice;
notes outlive a scope that fails.

Declarations and directives mean scripts (`Declaration.script`, `Directive.script`), so there is one kind of body to
run. How a tag is read depends on the dispatch policy.
-/

namespace AccessRules

/-- How tags are read that are no category's name. -/
inductive DispatchPolicy where
  /-- Every such tag is a step down. -/
  | infer
  /-- One that is a category's name but for the case of letters is refused. -/
  | strict
  deriving DecidableEq, Repr

/-- How the body of a scope ended. -/
abbrev Outcome := Except CompileError Unit

/-- What a script sees of its scope: the absolute path, the number of open scopes, and the tree grown so far. -/
structure View where
  path : Path
  depth : Nat
  tree : RuleTree

/-- The body of a scope. -/
inductive Script (ν : Type) where
  /-- The end: the scope is complete. -/
  | done
  /-- The scope fails. -/
  | fail (error : CompileError)
  /-- Add a predicate at the place of the scope. -/
  | add (category : Category) (predicate : Predicate) (next : Script ν)
  | note (n : ν) (next : Script ν)
  /-- Look at the scope. -/
  | look (next : View → Script ν)
  /-- Ask how tags are read. -/
  | policy (next : DispatchPolicy → Script ν)
  /-- Open a scope at a path expression; the answer is the tree of this scope with that one merged into it, or `none`
  if that scope failed. -/
  | within (expr : String) (body : Script ν) (next : Option RuleTree → Script ν)
  /-- Open a scope one segment further down, with the same answer. -/
  | descend (segment : Segment) (body : Script ν) (next : Option RuleTree → Script ν)

/-- Go on with `next` where a script ends. -/
def Script.andThen {ν : Type} : Script ν → (Outcome → Script ν) → Script ν
  | done, next => next (.ok ())
  | fail error, next => next (.error error)
  | add c p rest, next => add c p (rest.andThen next)
  | note n rest, next => note n (rest.andThen next)
  | look rest, next => look fun v => (rest v).andThen next
  | policy rest, next => policy fun p => (rest p).andThen next
  | within expr body rest, next => within expr body fun r => (rest r).andThen next
  | descend s body rest, next => descend s body fun r => (rest r).andThen next

/-- Go on with `next` if the outcome is good, else fail. -/
def Script.orFail {ν : Type} (next : Script ν) : Outcome → Script ν
  | .ok _ => next
  | .error e => .fail e

/-! ## Directives and declarations -/

/-- The category that a tag names, `none` for a step down. -/
def DispatchPolicy.classify (policy : DispatchPolicy) (tag : String) : Except CompileError (Option Category) :=
  match Category.ofName? tag with
  | some c => .ok (some c)
  | none =>
    match policy, Category.ofNameIgnoringCase? tag with
    | .strict, some c => .error (.categoryCollision tag c)
    | _, _ => .ok none

section

variable {ν : Type} (policy : DispatchPolicy)

mutual

/-- One declaration, and then `next`. A scope that it opens may fail without harm to what follows. -/
def Declaration.script : Declaration → Script ν → Script ν
  | .add c p, next => .add c p next
  | .authorize directives, next => Directive.scripts directives next
  | .within expr body, next => .within expr (Declaration.scripts body .done) fun _ => next

/-- Declarations in order, and then `next`. -/
def Declaration.scripts : List Declaration → Script ν → Script ν
  | [], next => next
  | d :: rest, next => Declaration.script d (Declaration.scripts rest next)

/-- One directive, and then `next`: a predicate under a category is added, a body under another tag is run one segment
further down, and a value that does not fit its tag fails the scope. -/
def Directive.script : Directive → Script ν → Script ν
  | .mk tag value, next =>
    match policy.classify tag with
    | .error e => .fail e
    | .ok category? => Directive.Value.script tag category? value next

/-- The value under a tag, which names a category or else a step down. -/
def Directive.Value.script (tag : String) : Option Category → Directive.Value → Script ν → Script ν
  | some c, .predicate p, next => .add c p next
  | some _, _, _ => .fail (.expectedPredicate tag)
  | none, .predicate _, _ => .fail (.expectedBody tag)
  | none, .nested directives, next => .descend (.ofTag tag) (Directive.scripts directives .done) fun _ => next
  | none, .body declarations, next => .descend (.ofTag tag) (Declaration.scripts declarations .done) fun _ => next

/-- Directives in order, and then `next`. -/
def Directive.scripts : List Directive → Script ν → Script ν
  | [], next => next
  | d :: rest, next => Directive.script d (Directive.scripts rest next)

end

end

/-- Work off directives in the scope of a script, which learns how that ended. What was done before a directive that
fails stays done. -/
def Script.authorize {ν : Type} (directives : List Directive) (next : Outcome → Script ν) : Script ν :=
  .policy fun policy => (Directive.scripts policy directives .done).andThen next

/-- What the body of a scope may be given as. -/
inductive Body (ν : Type) where
  | declaration (d : Declaration)
  | declarations (ds : List Declaration)
  | directives (ds : List Directive)
  | script (s : Script ν)

/-- Every body means a script. -/
def Body.toScript {ν : Type} : Body ν → Script ν
  | declaration d => .policy fun policy => d.script policy .done
  | declarations ds => .policy fun policy => Declaration.scripts policy ds .done
  | directives ds => .policy fun policy => Directive.scripts policy ds .done
  | script s => s

end AccessRules
