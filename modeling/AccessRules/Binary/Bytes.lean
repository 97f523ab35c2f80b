/-!
# Numbers and texts in bytes

Numbers are written with their low byte first, in a fixed number of bytes, and bytes are shown as two digits of base 16.

Texts are written in UTF-8. Each character is one to four bytes: a first byte that says how many follow and holds the
highest bits, then bytes of six bits each. `Utf8.encode` writes texts, `Utf8.decode` reads them byte by byte. The
shortest form is the only one, and code points that are no characters have none; the range that the second byte must lie
in rules out the rest.
-/

namespace AccessRules

abbrev Bytes := List UInt8

namespace Bytes

/-- A number in `k` bytes, low byte first; higher bytes are cut off. -/
def ofNat : (k n : Nat) → Bytes
  | 0, _ => []
  | k + 1, n => .ofNat n :: ofNat k (n / 256)

/-- The number whose bytes these are, low byte first. -/
def toNat : Bytes → Nat
  | [] => 0
  | b :: rest => b.toNat + 256 * toNat rest

theorem length_ofNat (k n : Nat) : (ofNat k n).length = k := by
  induction k generalizing n with
  | zero => rfl
  | succ k ih => simp [ofNat, ih]

/-- The bytes in base 16. -/
def hexadecimal (bytes : Bytes) : String :=
  String.ofList (bytes.flatMap fun b => [(b.toNat / 16).digitChar, (b.toNat % 16).digitChar])

end Bytes

end AccessRules

/-! ## UTF-8 -/

namespace AccessRules.Utf8

/-- The bytes of one code point. -/
def encodePoint (n : Nat) : List UInt8 :=
  if n < 0x80 then [.ofNat n]
  else if n < 0x800 then [.ofNat (0xC0 + n / 64), .ofNat (0x80 + n % 64)]
  else if n < 0x10000 then [.ofNat (0xE0 + n / 4096), .ofNat (0x80 + n / 64 % 64), .ofNat (0x80 + n % 64)]
  else
    [.ofNat (0xF0 + n / 262144), .ofNat (0x80 + n / 4096 % 64), .ofNat (0x80 + n / 64 % 64), .ofNat (0x80 + n % 64)]

/-- The bytes of a text. -/
def encode (s : String) : List UInt8 := s.toList.flatMap fun c => encodePoint c.toNat

/-- Why bytes are no text. -/
structure Flaw where
  /-- As many bytes from the start are whole characters. -/
  validUpTo : Nat
  /-- As many bytes after those begin no character, or `none` if the bytes end inside what could be one. -/
  errorLength : Option Nat
  deriving DecidableEq, Repr

/-- Where decoding stands. -/
inductive Place where
  /-- Before a character. -/
  | start
  /-- In a character whose first bytes, `seen` of them, hold `bits`: the next lies between `low` and `high`, and
  `missing` follow that one. -/
  | inside (missing low high bits seen : Nat)
  deriving DecidableEq, Repr

/-- The place behind the first byte of a character of more than one byte. -/
def Place.ofLead? (b : Nat) : Option Place :=
  if b < 0xC2 then none
  else if b < 0xE0 then some (.inside 0 0x80 0xBF (b - 0xC0) 1)
  else if b < 0xF0 then
    some (.inside 1 (if b = 0xE0 then 0xA0 else 0x80) (if b = 0xED then 0x9F else 0xBF) (b - 0xE0) 1)
  else if b < 0xF5 then
    some (.inside 2 (if b = 0xF0 then 0x90 else 0x80) (if b = 0xF4 then 0x8F else 0xBF) (b - 0xF0) 1)
  else none

/-- Read on from a place. `valid` counts the bytes of the whole characters read so far, which are `text`. -/
def decodeFrom : Place → Nat → String → List UInt8 → Except Flaw String
  | .start, _, text, [] => .ok text
  | .inside .., valid, _, [] => .error ⟨valid, none⟩
  | .start, valid, text, b :: rest =>
    if b.toNat < 0x80 then decodeFrom .start (valid + 1) (text.push (.ofNat b.toNat)) rest
    else
      match Place.ofLead? b.toNat with
      | none => .error ⟨valid, some 1⟩
      | some place => decodeFrom place valid text rest
  | .inside missing low high bits seen, valid, text, b :: rest =>
    if b.toNat < low ∨ high < b.toNat then .error ⟨valid, some seen⟩
    else
      match missing with
      | 0 => decodeFrom .start (valid + seen + 1) (text.push (.ofNat (bits * 64 + (b.toNat - 0x80)))) rest
      | missing + 1 => decodeFrom (.inside missing 0x80 0xBF (bits * 64 + (b.toNat - 0x80)) (seen + 1)) valid text rest

/-- The text that bytes hold. -/
def decode (bytes : List UInt8) : Except Flaw String := decodeFrom .start 0 "" bytes

end AccessRules.Utf8
