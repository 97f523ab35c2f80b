import AccessRules.Compile.Compiler
import AccessRules.Proofs.Facts

/-!
# Traces

What a script does as the body of a scope, told without a stack of frames. A trace lists events in the order in which
they happen; the event of a nested scope holds the trace of its body. Three things are read off a trace:

* the facts that survive (`Event.factsOf`): those added, below the segments of the scopes they were added in, unless one
  of these scopes failed;
* a diagnostic for each scope that failed (`Event.failuresOf`), in the order in which they ended;
* the notes (`Event.notesOf`), which survive every failure.

`Script.trace` gives the trace. What the script is answered on the way is told by the trace so far: the tree that it
sees is grown from the surviving facts alone, one after the other.
-/

namespace AccessRules

/-- One thing that happens in a scope. -/
inductive Event (ν : Type) where
  | added (category : Category) (predicate : Predicate)
  | noted (n : ν)
  /-- A scope was asked for at an expression that leads nowhere. -/
  | unresolved (error : ResolveError)
  /-- A scope was asked for when as many as may be were open; its body was not run. -/
  | refused (segments : Path) (limit : Nat)
  /-- A scope was opened; what happened in it, and how it ended. -/
  | scope (segments : Path) (events : List (Event ν)) (outcome : Outcome)

namespace Event

variable {ν : Type}

mutual

/-- The facts that survive an event, as seen from the scope in which it happens. -/
def facts : Event ν → List Fact
  | added c p => [⟨[], c, p⟩]
  | scope segments events (.ok _) => (factsOf events).map (Fact.below segments)
  | _ => []

def factsOf : List (Event ν) → List Fact
  | [] => []
  | e :: rest => e.facts ++ factsOf rest

end

mutual

/-- The diagnostics of an event in the scope at a path: those from inside a scope come before its own. -/
def failures (path : Path) : Event ν → List Diagnostic
  | unresolved error => [⟨path, .resolve error⟩]
  | refused segments limit => [⟨path ++ segments, .depthExceeded limit⟩]
  | scope segments events (.ok _) => failuresOf (path ++ segments) events
  | scope segments events (.error error) => failuresOf (path ++ segments) events ++ [⟨path ++ segments, error⟩]
  | _ => []

def failuresOf (path : Path) : List (Event ν) → List Diagnostic
  | [] => []
  | e :: rest => e.failures path ++ failuresOf path rest

end

mutual

/-- The notes left by an event. -/
def notes : Event ν → List ν
  | noted n => [n]
  | scope _ events _ => notesOf events
  | _ => []

def notesOf : List (Event ν) → List ν
  | [] => []
  | e :: rest => e.notes ++ notesOf rest

end

/-- A scope was opened and completed. -/
def completes : Event ν → Bool
  | scope _ _ (.ok _) => true
  | _ => false

/-- The event of a scope that is asked for when `live` scopes are open, from the trace that its body would have. -/
def ofScope (limit live : Nat) (segments : Path) (body : List (Event ν) × Outcome) : Event ν :=
  if limit ≤ live then refused segments limit else scope segments body.1 body.2

/-- An event before a trace. -/
def followedBy (e : Event ν) (rest : List (Event ν) × Outcome) : List (Event ν) × Outcome := (e :: rest.1, rest.2)

end Event

/-! ## What a script sees -/

namespace View

variable {ν : Type}

/-- The view where no scope is open. -/
def outside : View := ⟨[], 0, .empty⟩

/-- The view at the start of a scope that is opened from here. -/
def inside (v : View) (segments : Path) : View := ⟨v.path ++ segments, v.depth + 1, .empty⟩

/-- The view after an event: the facts that survive it are declared. -/
def after (v : View) (e : Event ν) : View := { v with tree := e.facts.foldl RuleTree.declare v.tree }

/-- What is answered to a scope that was asked for. -/
def answer (v : View) (e : Event ν) : Option RuleTree := if e.completes then some (v.after e).tree else none

end View

/-! ## The trace of a script -/

section

variable {ν : Type} (config : Config) (resolver : Resolver)

/-- The event of a scope that is asked for at an expression; `body` gives the trace of its body for a view. -/
def View.asked (v : View) (expr : String) (body : View → List (Event ν) × Outcome) : Event ν :=
  match resolver expr with
  | .error error => .unresolved error
  | .ok segments => .ofScope config.maxDepth v.depth segments (body (v.inside segments))

/-- What a script does from a view on, and how it ends. -/
def Script.trace : Script ν → View → List (Event ν) × Outcome
  | .done, _ => ([], .ok ())
  | .fail error, _ => ([], .error error)
  | .add c p next, v =>
    let e := Event.added c p
    e.followedBy (next.trace (v.after e))
  | .note n next, v => (Event.noted n).followedBy (next.trace v)
  | .look next, v => (next v).trace v
  | .policy next, v => (next config.dispatch).trace v
  | .within expr body next, v =>
    let e := v.asked config resolver expr body.trace
    e.followedBy ((next (v.answer e)).trace (v.after e))
  | .descend segment body next, v =>
    let e := Event.ofScope config.maxDepth v.depth [segment] (body.trace (v.inside [segment]))
    e.followedBy ((next (v.answer e)).trace (v.after e))
termination_by structural script => script

/-- The event of a body that is compiled. -/
def Body.trace (body : Body ν) : Event ν :=
  .ofScope config.maxDepth 0 [] (body.toScript.trace config resolver (View.outside.inside []))

/-- The event of a body that is run by itself in a scope at an expression. -/
def Body.traceWithin (body : Body ν) (expr : String) : Event ν :=
  View.outside.asked config resolver expr (body.toScript.trace config resolver)

end

end AccessRules
