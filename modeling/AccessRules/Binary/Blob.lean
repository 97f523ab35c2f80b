import AccessRules.Binary.Payload

/-!
# Stored trees

A tree is kept as a blob: a header of 32 bytes and the payload that lists its nodes. The header names the format and
its version, tells how long the payload is, and holds the first half of its hash, so a blob that was cut or damaged is
noticed before it is read. Bytes behind the payload are ignored.

| bytes | content |
|---|---|
| 0 to 3 | `PRUL` |
| 4, 5 | version of the format |
| 6, 7 | version of the writer, for information |
| 8 to 11 | flags, not used |
| 12 to 15 | length of the payload |
| 16 to 31 | the first 16 bytes of the payload's BLAKE3 hash |

`RuleTree.toBytes` writes blobs; `RuleTree.ofBytes` reads and checks them, and `TreeInfo.ofBytes` reads no further than
what stands beside the list of nodes.
-/

namespace AccessRules

/-- Why no tree could be loaded. -/
inductive LoadError where
  | badMagic
  | incompatibleVersion (found : Nat)
  | checksumMismatch
  /-- So many bytes were expected, in a header or as a payload, and so many are there. -/
  | lengthMismatch (expected actual : Nat)
  | decode (error : Payload.DecodeError)
  | validation (fault : Listing.Fault)
  | missingFile
  deriving DecidableEq, Repr

namespace Blob

/-- The bytes that a blob starts with: `PRUL`. -/
def magic : Bytes := [0x50, 0x52, 0x55, 0x4C]

/-- The version of the format that is written and read. -/
def formatVersion : Nat := 1

/-- The version of the writer. -/
def writerVersion : Nat := 1

def headerSize : Nat := 32

/-- What the header keeps of a payload's hash. -/
def checksum (payload : Bytes) : Bytes := (Blake3.hash payload).toList.take 16

def header (payload : Bytes) : Bytes :=
  magic ++ Bytes.ofNat 2 formatVersion ++ Bytes.ofNat 2 writerVersion ++ Bytes.ofNat 4 0 ++
    Bytes.ofNat 4 payload.length ++ checksum payload

/-- The bytes from position `start` on, `k` of them. -/
def slice (bytes : Bytes) (start k : Nat) : Bytes := (bytes.drop start).take k

/-- The payload of a blob, once its header is found to fit. -/
def payload (bytes : Bytes) : Except LoadError Bytes :=
  if bytes.length < headerSize then .error (.lengthMismatch headerSize bytes.length)
  else if slice bytes 0 4 ≠ magic then .error .badMagic
  else
    let version := (slice bytes 4 2).toNat
    let length := (slice bytes 12 4).toNat
    let payload := slice bytes headerSize length
    if version ≠ formatVersion then .error (.incompatibleVersion version)
    else if bytes.length < headerSize + length then .error (.lengthMismatch length (bytes.length - headerSize))
    else if checksum payload ≠ slice bytes 16 16 then .error .checksumMismatch
    else .ok payload

/-- The listing that a blob holds. -/
def listing (bytes : Bytes) : Except LoadError Listing :=
  match payload bytes with
  | .error e => .error e
  | .ok bytes =>
    match Payload.read.run bytes with
    | .error e => .error (.decode e)
    | .ok (listing, _) => .ok listing

end Blob

def LoadError.message : LoadError → String
  | badMagic => "not a pathrules binary: invalid magic bytes"
  | incompatibleVersion found =>
    "incompatible format version: blob is v" ++ toString found ++ ", engine supports v" ++ toString Blob.formatVersion
  | checksumMismatch => "integrity check failed: BLAKE3 checksum mismatch"
  | lengthMismatch expected actual =>
    "payload length mismatch: expected " ++ toString expected ++ " bytes, got " ++ toString actual
  | decode error => "failed to decode payload: " ++ error.message
  | validation fault => "validation failed: " ++ fault.message
  | missingFile => "I/O error during deserialization: No such file or directory (os error 2)"

/-- The tree as a blob; the text that it was compiled from is kept as a hash. -/
def RuleTree.toBytes (t : RuleTree) (source : Option String) : Bytes :=
  let payload := Payload.write (Listing.ofTree t source)
  Blob.header payload ++ payload

/-- The tree of a blob. -/
def RuleTree.ofBytes (bytes : Bytes) : Except LoadError RuleTree :=
  match Blob.listing bytes with
  | .error e => .error e
  | .ok listing =>
    match listing.fault? with
    | some fault => .error (.validation fault)
    | none => .ok listing.toTree

/-- The tree of the blob that a file holds, or would hold if there were one. -/
def RuleTree.ofFile (content : Option Bytes) : Except LoadError RuleTree :=
  match content with
  | none => .error .missingFile
  | some bytes => RuleTree.ofBytes bytes

/-- What a blob tells of its tree; the list of nodes is not checked. -/
def TreeInfo.ofBytes (bytes : Bytes) : Except LoadError TreeInfo :=
  match Blob.listing bytes with
  | .error e => .error e
  | .ok listing => .ok listing.info

/-- The hash of a source text, as blobs hold it. -/
def sourceDigest (text : String) : Blake3.Digest := Blake3.hash (Utf8.encode text)

end AccessRules
