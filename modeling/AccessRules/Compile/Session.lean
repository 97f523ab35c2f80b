import AccessRules.Compile.Script

/-!
# Sessions

While scopes are open, each has a frame: its absolute path and the tree grown in it so far. The frames form a stack,
outermost first. A scope is addressed by its depth, the number of frames up to its own; new scopes are opened on top of
the stack and merged into the frame that is then on top. `enter` is one scope from opening to merging, whatever its
body; `run` is a body given as a script.

A session also collects the diagnostics of the scopes that failed and the notes that scripts left, in order.
-/

namespace AccessRules

/-- Settings of a compiler. -/
structure Config where
  dispatch : DispatchPolicy := .infer
  /-- As many scopes may be open at once. -/
  maxDepth : Nat := 64
  deriving DecidableEq, Repr

/-- An open scope: its absolute path and what has been grown in it. -/
structure Frame where
  path : Path
  tree : RuleTree

/-- The open scopes and what has been reported. -/
structure Session (ν : Type) where
  /-- Outermost first. -/
  frames : List Frame := []
  diagnostics : List Diagnostic := []
  notes : List ν := []

namespace Session

variable {ν : Type}

/-- The number of open scopes. -/
def depth (s : Session ν) : Nat := s.frames.length

/-- The frame on top of the stack. -/
def top? (s : Session ν) : Option Frame := s.frames.getLast?

/-- The absolute path of the innermost scope. -/
def currentPath (s : Session ν) : Path := (s.top?.map Frame.path).getD []

/-- The frame of the scope at a depth. -/
def frame? (s : Session ν) : Nat → Option Frame
  | 0 => none
  | d + 1 => s.frames[d]?

/-- Change the frame of the scope at a depth. -/
def modifyFrame (s : Session ν) (depth : Nat) (f : Frame → Frame) : Session ν :=
  match depth with
  | 0 => s
  | d + 1 => { s with frames := s.frames.modify d f }

/-- Put a frame for a scope at an absolute path on top. -/
def push (s : Session ν) (path : Path) : Session ν := { s with frames := s.frames ++ [⟨path, .empty⟩] }

/-- Take away the frame of the scope at a depth, and with it all frames above. -/
def pop (s : Session ν) (depth : Nat) : Frame × Session ν :=
  let upTo := s.frames.take depth
  (upTo.getLast?.getD ⟨[], .empty⟩, { s with frames := upTo.dropLast })

/-- Report a scope that failed. -/
def report (s : Session ν) (path : Path) (error : CompileError) : Session ν :=
  { s with diagnostics := s.diagnostics ++ [⟨path, error⟩] }

/-- Leave a note. -/
def addNote (s : Session ν) (n : ν) : Session ν := { s with notes := s.notes ++ [n] }

/-- Merge the tree of a completed scope into the frame on top, or into an empty tree when no scope is open; the answer
is the merged tree. -/
def adopt (s : Session ν) (segments : Path) (leaf : RuleTree) : RuleTree × Session ν :=
  match s.top? with
  | some parent =>
    let tree := parent.tree.mergePruned segments leaf
    (tree, { s with frames := s.frames.dropLast ++ [{ parent with tree }] })
  | none => (RuleTree.empty.mergePruned segments leaf, s)

/-- What the scope at a depth shows. -/
def view (s : Session ν) (depth : Nat) : View :=
  match s.frame? depth with
  | some frame => ⟨frame.path, depth, frame.tree⟩
  | none => ⟨[], depth, .empty⟩

/-- One scope, `segments` below the innermost one: open it if the limit allows, run the body, close it, and merge its
tree if the body completed. A scope that fails leaves nothing but a diagnostic. -/
def enter (s : Session ν) (limit : Nat) (segments : Path) (body : Nat → Session ν → Outcome × Session ν) :
    Option RuleTree × Session ν :=
  let path := s.currentPath ++ segments
  if limit ≤ s.depth then (none, s.report path (.depthExceeded limit))
  else
    let opened := s.push path
    let (outcome, ran) := body opened.depth opened
    let (frame, closed) := ran.pop opened.depth
    match outcome with
    | .error e => (none, closed.report path e)
    | .ok _ =>
      let (tree, merged) := closed.adopt segments frame.tree
      (some tree, merged)

/-- One scope at the path that an expression resolves to; one that does not is reported for the innermost scope. -/
def enterAt (s : Session ν) (limit : Nat) (resolver : Resolver) (expr : String)
    (body : Nat → Session ν → Outcome × Session ν) : Option RuleTree × Session ν :=
  match resolver expr with
  | .error e => (none, s.report s.currentPath (.resolve e))
  | .ok segments => s.enter limit segments body

end Session

/-- Run a script as the body of the scope at a depth. -/
def Script.run {ν : Type} (config : Config) (resolver : Resolver) :
    Script ν → Nat → Session ν → Outcome × Session ν
  | .done, _, s => (.ok (), s)
  | .fail error, _, s => (.error error, s)
  | .add c p next, depth, s =>
    next.run config resolver depth (s.modifyFrame depth fun frame => { frame with tree := frame.tree.add c p })
  | .note n next, depth, s => next.run config resolver depth (s.addNote n)
  | .look next, depth, s => (next (s.view depth)).run config resolver depth s
  | .policy next, depth, s => (next config.dispatch).run config resolver depth s
  | .within expr body next, depth, s =>
    let (answer, s) := s.enterAt config.maxDepth resolver expr (body.run config resolver)
    (next answer).run config resolver depth s
  | .descend segment body next, depth, s =>
    let (answer, s) := s.enter config.maxDepth [segment] (body.run config resolver)
    (next answer).run config resolver depth s
termination_by structural script => script

end AccessRules
