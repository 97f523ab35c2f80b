import AccessRules.Binary.Blob
import Mathlib.Algebra.GroupWithZero.Nat

/-!
# Loading in place

Loading as it is done on arrays and machine words. What `Blob` and `Listing` say with lists, options and whole numbers
is done here by position: header fields are read byte by byte, a counter for each row is raised where a later row hangs
on it, and subtrees are moved from their own position below that of their parent, the last one first. Each of these
steps is *checked*: a position or range outside an array, and a sum or difference outside a machine word, is a `Breach`.

So there are two ways to stop without a tree. To refuse the bytes with a `LoadError` is an answer; a breach is none.
That no bytes ever lead to a breach is shown in `Proofs/Bounds.lean`.
-/

namespace AccessRules.InPlace

open Listing (Row Fault)

/-! ## Checked steps -/

/-- What a checked step stops at. -/
inductive Breach where
  /-- A position in an array of so many elements. -/
  | position (index length : Nat)
  /-- A range in an array of so many elements. -/
  | range (start stop length : Nat)
  /-- Elements are copied to a place for another number of them. -/
  | lengths (target source : Nat)
  | overflow (a b : Nat)
  | underflow (a b : Nat)
  deriving DecidableEq, Repr

/-- Why loading stops. -/
inductive Stop where
  | refused (error : LoadError)
  | breach (breach : Breach)
  deriving DecidableEq, Repr

abbrev Checked := Except Stop

/-- Stop at a breach. -/
def Breach.stop {α : Type} (breach : Breach) : Checked α := .error (.breach breach)

/-- Refuse the bytes. -/
def refuse {α : Type} (error : LoadError) : Checked α := .error (.refused error)

/-- Refuse the bytes for a fault of their listing. -/
def refuseFault {α : Type} (fault : Fault) : Checked α := refuse (.validation fault)

theorem ok_bind {α β : Type} (a : α) (next : α → Checked β) : (.ok a >>= next) = next a := rfl

section

variable {α : Type}

/-- The element at a position. -/
def get (as : List α) (i : Nat) : Checked α :=
  match as[i]? with
  | some a => .ok a
  | none => Breach.stop (.position i as.length)

/-- The array with another element at a position. -/
def set (as : List α) (i : Nat) (a : α) : Checked (List α) :=
  if i < as.length then .ok (as.set i a) else Breach.stop (.position i as.length)

/-- The elements from position `start` up to `stop`. -/
def range (as : List α) (start stop : Nat) : Checked (List α) :=
  if start ≤ stop ∧ stop ≤ as.length then .ok ((as.drop start).take (stop - start))
  else Breach.stop (.range start stop as.length)

/-- Elements, copied to a place for `k` of them. -/
def copy (k : Nat) (source : List α) : Checked (List α) :=
  if source.length = k then .ok source else Breach.stop (.lengths k source.length)

variable {as : List α} {i start stop k : Nat} {a : α}

theorem get_of_getElem? (h : as[i]? = some a) : get as i = .ok a := by
  rw [get, h]

theorem get_of_lt (h : i < as.length) : get as i = .ok as[i] := get_of_getElem? (List.getElem?_eq_getElem h)

theorem set_of_lt (h : i < as.length) : set as i a = .ok (as.set i a) := if_pos h

theorem range_of_le (hstart : start ≤ stop) (hstop : stop ≤ as.length) :
    range as start stop = .ok ((as.drop start).take (stop - start)) := if_pos ⟨hstart, hstop⟩

theorem copy_of_length (h : as.length = k) : copy k as = .ok as := if_pos h

end

/-- The numbers that a machine word holds are those below. -/
def wordBound : Nat := 2 ^ 64

def plus (a b : Nat) : Checked Nat := if a + b < wordBound then .ok (a + b) else Breach.stop (.overflow a b)

def minus (a b : Nat) : Checked Nat := if b ≤ a then .ok (a - b) else Breach.stop (.underflow a b)

theorem plus_of_lt {a b : Nat} (h : a + b < wordBound) : plus a b = .ok (a + b) := if_pos h

theorem minus_of_le {a b : Nat} (h : b ≤ a) : minus a b = .ok (a - b) := if_pos h

/-- Summed up from the left. -/
def sum (ns : List Nat) : Checked Nat := ns.foldlM plus 0

/-- If the whole sum is in bounds, so is every sum on the way to it. -/
theorem sum_of_lt {ns : List Nat} (h : ns.sum < wordBound) : sum ns = .ok ns.sum := by
  suffices H : ∀ a, a + ns.sum < wordBound → ns.foldlM plus a = .ok (a + ns.sum) by
    have hsum := H 0
    rw [Nat.zero_add] at hsum
    exact hsum h
  clear h
  induction ns with
  | nil => exact fun _ _ => rfl
  | cons n ns ih =>
    intro a ha
    rw [List.sum_cons, ← Nat.add_assoc] at ha ⊢
    rw [List.foldlM_cons, plus_of_lt (by omega)]
    exact ih (a + n) ha

/-! ## The header and the payload -/

/-- The version, the length of the payload and the checksum that a header says. -/
def header (bytes : Bytes) : Checked (Nat × Nat × Bytes) :=
  if bytes.length < Blob.headerSize then refuse (.lengthMismatch Blob.headerSize bytes.length)
  else do
    let magic ← range bytes 0 4
    if magic ≠ Blob.magic then refuse .badMagic
    else
      let version := Bytes.toNat [← get bytes 4, ← get bytes 5]
      let length := Bytes.toNat [← get bytes 12, ← get bytes 13, ← get bytes 14, ← get bytes 15]
      let checksum ← copy 16 (← range bytes 16 32)
      pure (version, length, checksum)

def payload (bytes : Bytes) : Checked Bytes := do
  let (version, length, checksum) ← header bytes
  if version ≠ Blob.formatVersion then refuse (.incompatibleVersion version)
  else
    let stop ← plus Blob.headerSize length
    if bytes.length < stop then
      let actual ← minus bytes.length Blob.headerSize
      refuse (.lengthMismatch length actual)
    else
      let payload ← range bytes Blob.headerSize stop
      let computed ← range (Blake3.hash payload).toList 0 16
      if computed ≠ checksum then refuse .checksumMismatch else pure payload

def listing (bytes : Bytes) : Checked Listing := do
  match Payload.read.run (← payload bytes) with
  | .error e => refuse (.decode e)
  | .ok (listing, _) => pure listing

/-! ## Faults -/

def sumPredicates (rows : List Row) : Checked Nat := sum ((rows.flatMap Row.rules).map fun r => r.2.length)

/-- Check what the rows from `index` on hang on, and raise the counter of each row by the number of those that hang on
it. `seen` holds the edges of the rows before, each with its parent. -/
def countLinks (seen : List (Nat × Edge)) (counters : List Nat) (index : Nat) : List Row → Checked (List Nat)
  | [] => pure counters
  | row :: rest =>
    match row.parent, row.edge with
    | some p, some s =>
      if index ≤ p then refuseFault (.laterParent index p)
      else if seen.contains (p, s.edge) then refuseFault (.duplicateEdge p)
      else do
        let raised ← plus (← get counters p) 1
        let counters ← set counters p raised
        countLinks ((p, s.edge) :: seen) counters (index + 1) rest
    | _, _ => refuseFault (.unlinked index)

/-- Check the rules of the rows from `index` on, and of those without rules the counters. -/
def checkContents (counters : List Nat) (index : Nat) : List Row → Checked Unit
  | [] => pure ()
  | row :: rest =>
    match Listing.ruleFault? index [] row.rules with
    | some fault => refuseFault fault
    | none =>
      if 0 < index ∧ row.rules = [] then do
        let counter ← get counters index
        if counter = 0 then refuseFault (.emptyNode index) else checkContents counters (index + 1) rest
      else checkContents counters (index + 1) rest

def check (l : Listing) : Checked Unit :=
  if l.info.nodeCount ≠ l.rows.length then refuseFault (.nodeCount l.info.nodeCount l.rows.length)
  else do
    let listed ← sumPredicates l.rows
    if l.info.predicateCount ≠ listed then refuseFault (.predicateCount l.info.predicateCount listed)
    else
      match l.rows with
      | [] => refuseFault .noRoot
      | root :: rest =>
        if root.parent.isSome || root.edge.isSome then refuseFault .linkedRoot
        else
          let counters ← countLinks [] (List.replicate l.rows.length 0) 1 rest
          checkContents counters 0 l.rows

/-! ## Assembly -/

/-- What a row hangs on, and the segment it hangs by. -/
def branchOf (row : Row) : Option (Nat × Segment) :=
  match row.parent, row.edge with
  | some p, some s => some (p, s)
  | _, _ => none

/-- Move the tree at a position below its parent. -/
def move (links : List (Option (Nat × Segment))) (trees : List RuleTree) (index : Nat) : Checked (List RuleTree) := do
  match ← get links index with
  | none => pure trees
  | some (p, s) =>
    let child ← get trees index
    let trees ← set trees index .empty
    let parent ← get trees p
    set trees p (parent.put s child)

/-- Move the trees at the positions from `index` down to 1. -/
def attach (links : List (Option (Nat × Segment))) : (index : Nat) → List RuleTree → Checked (List RuleTree)
  | 0, trees => pure trees
  | index + 1, trees => do
    let trees ← move links trees (index + 1)
    attach links index trees

/-- The tree at the first position, when the others have been moved below it. -/
def build (l : Listing) : Checked RuleTree := do
  let trees ← attach (l.rows.map branchOf) (l.rows.length - 1) (l.rows.map Row.tree)
  get trees 0

/-! ## Loading -/

def tree (bytes : Bytes) : Checked RuleTree := do
  let l ← listing bytes
  check l
  build l

def info (bytes : Bytes) : Checked TreeInfo := do
  let l ← listing bytes
  pure l.info

end AccessRules.InPlace
