import AccessRules.Compile.Session

/-!
# Compilers

A compiler turns bodies of scopes into rule trees. `compile` runs a body in a scope at the root and gives the tree it
grew with the diagnostics of that run; `within` opens a single scope, whose diagnostics stay on the compiler until they
are taken.
-/

namespace AccessRules

/-- A tree, and the scopes that are missing in it. -/
structure Compilation where
  tree : RuleTree
  diagnostics : List Diagnostic

namespace Compilation

/-- No scope failed. -/
def isComplete (c : Compilation) : Bool := c.diagnostics.isEmpty

/-- The tree if no scope failed, else the diagnostics. -/
def result (c : Compilation) : Except (List Diagnostic) RuleTree :=
  if c.isComplete then .ok c.tree else .error c.diagnostics

/-- The size of a compilation in one line. -/
def summary (c : Compilation) : String :=
  "Compilation(" ++ toString c.tree.size ++ " nodes, " ++ toString c.tree.predicateCount ++ " predicates, " ++
    toString c.diagnostics.length ++ " diagnostics)"

end Compilation

/-- Settings, a resolver, and what is pending from earlier runs. -/
structure Compiler (ν : Type) where
  config : Config := {}
  resolver : Resolver := .slash
  session : Session ν := {}

namespace Compiler

variable {ν : Type}

/-- Run a body in a scope at the root. The diagnostics of this run go into the compilation, earlier ones stay. -/
def compile (c : Compiler ν) (body : Body ν) : Compilation × Compiler ν :=
  let earlier := c.session.diagnostics.length
  let (tree?, s) := c.session.enter c.config.maxDepth [] (body.toScript.run c.config c.resolver)
  (⟨tree?.getD .empty, s.diagnostics.drop earlier⟩,
    { c with session := { s with diagnostics := s.diagnostics.take earlier } })

/-- Run a body in a scope at a path expression; the answer is a tree with what the scope grew at that path. -/
def within (c : Compiler ν) (expr : String) (body : Body ν) : Option RuleTree × Compiler ν :=
  let (tree?, session) := c.session.enterAt c.config.maxDepth c.resolver expr (body.toScript.run c.config c.resolver)
  (tree?, { c with session })

/-- The diagnostics since they were last taken. -/
def diagnostics (c : Compiler ν) : List Diagnostic := c.session.diagnostics

/-- Take the diagnostics off the compiler. -/
def takeDiagnostics (c : Compiler ν) : List Diagnostic × Compiler ν :=
  (c.diagnostics, { c with session := { c.session with diagnostics := [] } })

/-- Take the notes off the compiler. -/
def takeNotes (c : Compiler ν) : List ν × Compiler ν :=
  (c.session.notes, { c with session := { c.session with notes := [] } })

end Compiler

end AccessRules
