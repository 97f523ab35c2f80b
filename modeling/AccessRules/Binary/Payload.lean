import AccessRules.Binary.Listing

/-!
# The payload

The bytes of a listing. Fields stand one after the other without names. A number is one byte up to 250, else a mark and
two, four or eight bytes; readers take any of these forms, writers the shortest. A list is its length and its elements,
a text the length of its bytes and these, an optional value one byte that says whether it is there, and a choice is the
number of the alternative and what belongs to it.

A reader takes what it needs off the front of the bytes; whatever is left in the end is ignored.
-/

namespace AccessRules.Payload

/-! ## Writing -/

def writeNat (n : Nat) : Bytes :=
  if n < 251 then [.ofNat n]
  else if n < 0x10000 then 0xFB :: Bytes.ofNat 2 n
  else if n < 0x100000000 then 0xFC :: Bytes.ofNat 4 n
  else 0xFD :: Bytes.ofNat 8 n

def writeOption {α : Type} (write : α → Bytes) : Option α → Bytes
  | none => [0]
  | some a => 1 :: write a

def writeText (s : String) : Bytes :=
  let bytes := Utf8.encode s
  writeNat bytes.length ++ bytes

def writeList {α : Type} (write : α → Bytes) (as : List α) : Bytes := writeNat as.length ++ as.flatMap write

def writeSegment : Segment → Bytes
  | .literal text => writeNat 0 ++ writeText text
  | .capture name => writeNat 1 ++ writeText name

def writeRule (r : Category × List Predicate) : Bytes :=
  writeNat r.1.position ++ writeList (fun p => writeText p.text) r.2

def writeRow (row : Listing.Row) : Bytes :=
  writeOption writeNat row.parent ++ writeOption writeSegment row.edge ++ writeList writeRule row.rules

def writeInfo (info : TreeInfo) : Bytes :=
  writeNat info.nodeCount ++ writeNat info.predicateCount ++ writeOption Vector.toList info.sourceDigest

/-- The bytes of a listing. -/
def write (l : Listing) : Bytes := writeInfo l.info ++ writeList writeRow l.rows

/-! ## Reading -/

/-- What a number is read for, which bounds how it may be written. -/
inductive Purpose where
  /-- A count, a position, or the length of a text. -/
  | count
  /-- The length of a list. -/
  | listLength
  /-- The number of an alternative. -/
  | alternative
  deriving DecidableEq, Repr

/-- The kinds of number that errors name. -/
inductive NumberKind where
  | u32 | u64 | usize | u128 | reserved
  deriving DecidableEq, Repr

def NumberKind.name : NumberKind → String
  | u32 => "U32"
  | u64 => "U64"
  | usize => "Usize"
  | u128 => "U128"
  | reserved => "Reserved"

/-- The kind of number that is named as expected when so many bytes were left, the first byte of the number included.
A count is named by its own kind only at the end, where its longest form would not fit. -/
def Purpose.expected (left : Nat) : Purpose → NumberKind
  | count => if left < 9 then .u64 else .u32
  | listLength => .usize
  | alternative => .u32

/-- The kind of number that a first byte announces which its purpose does not admit. -/
def NumberKind.ofMark (mark : UInt8) : NumberKind :=
  if mark = 0xFD then .u64 else if mark = 0xFE then .u128 else .reserved

/-- Why bytes are no payload. -/
inductive DecodeError where
  /-- So many bytes more were needed at once. -/
  | unexpectedEnd (additional : Nat)
  /-- The first byte of a number is none that its purpose admits. -/
  | invalidNumber (expected found : NumberKind)
  /-- The byte before an optional value is neither 0 nor 1. -/
  | invalidOption (found : UInt8)
  /-- The number of an alternative is not below the number of alternatives. -/
  | invalidAlternative (found alternatives : Nat)
  /-- The bytes of a text are not UTF-8. -/
  | invalidText (flaw : Utf8.Flaw)
  deriving DecidableEq, Repr

def DecodeError.message : DecodeError → String
  | unexpectedEnd additional => "UnexpectedEnd \x7b additional: " ++ toString additional ++ " \x7d"
  | invalidNumber expected found =>
    "InvalidIntegerType \x7b expected: " ++ expected.name ++ ", found: " ++ found.name ++ " \x7d"
  | invalidOption found =>
    "UnexpectedVariant \x7b type_name: \"Option<T>\", allowed: Range \x7b min: 0, max: 1 \x7d, found: " ++
      toString found.toNat ++ " \x7d"
  | invalidAlternative found alternatives =>
    "OtherString(\"invalid value: integer `" ++ toString found ++ "`, expected variant index 0 <= i < " ++
      toString alternatives ++ "\")"
  | invalidText flaw =>
    "Utf8 \x7b inner: Utf8Error \x7b valid_up_to: " ++ toString flaw.validUpTo ++ ", error_len: " ++
      (match flaw.errorLength with
        | none => "None"
        | some n => "Some(" ++ toString n ++ ")") ++ " \x7d \x7d"

/-- What takes a value off the front of bytes. -/
abbrev Reader := StateT Bytes (Except DecodeError)

/-- So many bytes, all at once. -/
def splitExactly : Nat → Bytes → Except DecodeError (Bytes × Bytes)
  | 0, rest => .ok ([], rest)
  | k + 1, [] => .error (.unexpectedEnd (k + 1))
  | k + 1, b :: rest =>
    match splitExactly k rest with
    | .error e => .error e
    | .ok (taken, rest) => .ok (b :: taken, rest)

def readBytes (k : Nat) : Reader Bytes := splitExactly k

def readByte : Reader UInt8
  | [] => .error (.unexpectedEnd 1)
  | b :: rest => .ok (b, rest)

/-- The number behind its first byte. -/
def readNatFrom (purpose : Purpose) (mark : UInt8) : Reader Nat :=
  if mark < 0xFB then pure mark.toNat
  else if mark = 0xFB then Bytes.toNat <$> readBytes 2
  else if mark = 0xFC then Bytes.toNat <$> readBytes 4
  else if mark = 0xFD ∧ purpose ≠ .alternative then Bytes.toNat <$> readBytes 8
  else do
    let rest ← get
    throw (.invalidNumber (purpose.expected (rest.length + 1)) (.ofMark mark))

def readNat (purpose : Purpose) : Reader Nat := do
  let mark ← readByte
  readNatFrom purpose mark

def readOption {α : Type} (read : Reader α) : Reader (Option α) := do
  let present ← readByte
  if present = 0 then pure none
  else if present = 1 then some <$> read
  else throw (.invalidOption present)

/-- So many values, one after the other. -/
def readTimes {α : Type} (read : Reader α) : Nat → Reader (List α)
  | 0 => pure []
  | n + 1 => do
    let a ← read
    let as ← readTimes read n
    pure (a :: as)

def readList {α : Type} (read : Reader α) : Reader (List α) := do
  let n ← readNat .listLength
  readTimes read n

def readText : Reader String := do
  let n ← readNat .count
  let bytes ← readBytes n
  match Utf8.decode bytes with
  | .ok s => pure s
  | .error flaw => throw (.invalidText flaw)

/-- The number of one of so many alternatives. -/
def readAlternative (alternatives : Nat) : Reader Nat := do
  let n ← readNat .alternative
  if n < alternatives then pure n else throw (.invalidAlternative n alternatives)

def readSegment : Reader Segment := do
  let n ← readAlternative 2
  let text ← readText
  pure (if n = 0 then .literal text else .capture text)

def readCategory : Reader Category := do
  let n ← readNat .alternative
  match Category.ofPosition? n with
  | some c => pure c
  | none => throw (.invalidAlternative n Category.all.length)

def readRule : Reader (Category × List Predicate) := do
  let c ← readCategory
  let ps ← readList (Predicate.mk <$> readText)
  pure (c, ps)

def readRow : Reader Listing.Row := do
  let parent ← readOption (readNat .count)
  let edge ← readOption readSegment
  let rules ← readList readRule
  pure ⟨parent, edge, rules⟩

/-- The bytes of a hash, one at a time. -/
def readDigest : Reader Blake3.Digest := do
  let bytes ← readTimes readByte 32
  pure (Vector.ofFn fun i => bytes[i.val]?.getD 0)

def readInfo : Reader TreeInfo := do
  let nodeCount ← readNat .count
  let predicateCount ← readNat .count
  let sourceDigest ← readOption readDigest
  pure ⟨nodeCount, predicateCount, sourceDigest⟩

/-- A listing from the front of bytes. -/
def read : Reader Listing := do
  let info ← readInfo
  let rows ← readList readRow
  pure ⟨info, rows⟩

end AccessRules.Payload
