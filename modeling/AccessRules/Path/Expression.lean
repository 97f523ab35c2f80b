import AccessRules.Path.Basic
import AccessRules.Text

/-!
# Path expressions and resolvers

An expression such as `users/$uid/profile` is read from left to right, one character at a time. Slashes separate
segments; leading, trailing and repeated ones are ignored. A segment is a capture, `$` and a name, or a literal, any
other characters but `/`, `$` and white space.

`advance` takes one character, `finish` the end. Each refuses only what no expression can have there, so reading stops
at the end of the longest prefix that some expression starts with, and the fault is at that place.

A resolver turns the expression that opens a scope into a path. The usual one reads such expressions (`Resolver.slash`);
a caller with another way to write paths brings another function.
-/

namespace AccessRules.Expression

/-- What an expression could have gone on with. -/
inductive Expected where
  /-- The name of a capture, behind its `$`. -/
  | captureName
  /-- A segment, at the start or behind a slash. -/
  | segment
  /-- A slash, behind a segment. -/
  | slash
  deriving DecidableEq, Repr

def Expected.phrase : Expected → String
  | captureName => "variable name, path segment"
  | segment => "path segment"
  | slash => "`/`"

/-- Why an expression is no path; the offset counts bytes of UTF-8. -/
structure Fault where
  expected : Expected
  offset : Nat
  deriving DecidableEq, Repr

/-- One line on a fault of an expression, with the expression quoted. -/
def Fault.detail (fault : Fault) (expr : String) : String :=
  "expected " ++ fault.expected.phrase ++ " in " ++ Text.quoted expr

def startsName (c : Char) : Bool := c.isAlpha || c = '_'

def continuesName (c : Char) : Bool := c.isAlphanum || c = '_'

/-- Where reading stands in an expression. -/
inductive Place where
  /-- Before a segment. -/
  | between
  /-- Behind the `$` of a capture. -/
  | dollar
  /-- In a literal that has begun with this text. -/
  | literal (text : String)
  /-- In a capture whose name has begun with this text. -/
  | capture (name : String)
  deriving DecidableEq, Repr

/-- The place behind one more character, and the segment that this character ends. -/
def advance (c : Char) : Place → Except Expected (Option Segment × Place)
  | .between =>
    if c = '/' then .ok (none, .between)
    else if c = '$' then .ok (none, .dollar)
    else if Text.isWhiteSpace c then .error .segment
    else .ok (none, .literal c.toString)
  | .dollar => if startsName c then .ok (none, .capture c.toString) else .error .captureName
  | .literal text =>
    if c = '/' then .ok (some (.literal text), .between)
    else if c = '$' || Text.isWhiteSpace c then .error .slash
    else .ok (none, .literal (text.push c))
  | .capture name =>
    if c = '/' then .ok (some (.capture name), .between)
    else if continuesName c then .ok (none, .capture (name.push c))
    else .error .slash

/-- The segment that the end of the expression ends. -/
def finish : Place → Except Expected Path
  | .between => .ok []
  | .dollar => .error .captureName
  | .literal text => .ok [.literal text]
  | .capture name => .ok [.capture name]

/-- Read the rest of an expression from a place at an offset. -/
def readFrom (place : Place) (offset : Nat) : List Char → Except Fault Path
  | [] => (finish place).mapError (⟨·, offset⟩)
  | c :: rest =>
    match advance c place with
    | .error expected => .error ⟨expected, offset⟩
    | .ok (none, next) => readFrom next (offset + c.utf8Size) rest
    | .ok (some s, next) => (readFrom next (offset + c.utf8Size) rest).map (s :: ·)

/-- Read a path expression. -/
def read (expr : String) : Except Fault Path := readFrom .between 0 expr.toList

end AccessRules.Expression

/-! ## Resolvers -/

namespace AccessRules

/-- An expression that a resolver refused, with the byte offset of the refusal if the resolver knows one. -/
structure ResolveError where
  detail : String
  offset : Option Nat
  deriving DecidableEq, Repr

def ResolveError.message (e : ResolveError) : String := "parse error: " ++ e.detail

/-- What turns expressions into paths. -/
abbrev Resolver := String → Except ResolveError Path

/-- Slash-separated expressions. -/
def Resolver.slash : Resolver := fun expr =>
  (Expression.read expr).mapError fun fault => ⟨fault.detail expr, some fault.offset⟩

end AccessRules
