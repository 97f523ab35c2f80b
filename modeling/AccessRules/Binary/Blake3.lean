import AccessRules.Binary.Bytes

/-!
# BLAKE3

The hash function BLAKE3 with its default output of 32 bytes. The input is cut into chunks of 1024 bytes and these into
blocks of 64; the blocks of a chunk are compressed one after the other, and the chunks are the leaves of a binary tree
whose inner nodes compress the chaining values of their children. Neighbours are joined level by level, and one without
a neighbour goes up as it is, so every left subtree is complete. The last compression carries the root flag.
-/

namespace AccessRules.Blake3

/-- The 32 bytes of a hash. -/
abbrev Digest := Vector UInt8 32

/-- The state between compressions. -/
abbrev Chaining := Vector UInt32 8

/-- One block of input, or the state inside a compression. -/
abbrev Words := Vector UInt32 16

def initial : Chaining :=
  #v[0x6A09E667, 0xBB67AE85, 0x3C6EF372, 0xA54FF53A, 0x510E527F, 0x9B05688C, 0x1F83D9AB, 0x5BE0CD19]

/-- Which word of the block takes each place in the next round. -/
def schedule : Vector (Fin 16) 16 := #v[2, 6, 3, 10, 7, 0, 4, 13, 1, 11, 12, 5, 9, 14, 15, 8]

def chunkStart : UInt32 := 1

def chunkEnd : UInt32 := 2

def parentFlag : UInt32 := 4

def rootFlag : UInt32 := 8

/-! ## Compression -/

def rotateRight (x n : UInt32) : UInt32 := (x >>> n) ||| (x <<< (32 - n))

/-- Mix two words of input into a column or diagonal of the state. -/
def mix (s : Words) (a b c d : Fin 16) (x y : UInt32) : Words :=
  let s := s.set a (s[a] + s[b] + x)
  let s := s.set d (rotateRight (s[d] ^^^ s[a]) 16)
  let s := s.set c (s[c] + s[d])
  let s := s.set b (rotateRight (s[b] ^^^ s[c]) 12)
  let s := s.set a (s[a] + s[b] + y)
  let s := s.set d (rotateRight (s[d] ^^^ s[a]) 8)
  let s := s.set c (s[c] + s[d])
  s.set b (rotateRight (s[b] ^^^ s[c]) 7)

/-- Mix the columns, then the diagonals. -/
def round (s m : Words) : Words :=
  let s := mix s 0 4 8 12 m[0] m[1]
  let s := mix s 1 5 9 13 m[2] m[3]
  let s := mix s 2 6 10 14 m[4] m[5]
  let s := mix s 3 7 11 15 m[6] m[7]
  let s := mix s 0 5 10 15 m[8] m[9]
  let s := mix s 1 6 11 12 m[10] m[11]
  let s := mix s 2 7 8 13 m[12] m[13]
  mix s 3 4 9 14 m[14] m[15]

/-- So many rounds, the words of the block being permuted in between. -/
def rounds : Nat → Words → Words → Words
  | 0, s, _ => s
  | n + 1, s, m => rounds n (round s m) (schedule.map fun i => m[i])

/-- A compression that has not been done yet. -/
structure Compression where
  chaining : Chaining
  block : Words
  counter : Nat
  length : Nat
  flags : UInt32

/-- The chaining value that a compression gives, under further flags. -/
def Compression.output (c : Compression) (flags : UInt32) : Chaining :=
  let low := c.chaining
  let s : Words := #v[low[0], low[1], low[2], low[3], low[4], low[5], low[6], low[7],
    initial[0], initial[1], initial[2], initial[3],
    .ofNat c.counter, .ofNat (c.counter / 0x100000000), .ofNat c.length, c.flags ||| flags]
  let s := rounds 7 s c.block
  Vector.ofFn fun i => s[i.val] ^^^ s[i.val + 8]

/-! ## Chunks -/

/-- Pieces of `n` bytes, the last one shorter; one empty piece for no bytes. -/
def pieces (n : Nat) (bytes : Bytes) : List Bytes :=
  (List.range (max 1 ((bytes.length + n - 1) / n))).map fun i => (bytes.drop (i * n)).take n

/-- The words of up to 64 bytes, filled up with zeros. -/
def words (bytes : Bytes) : Words := Vector.ofFn fun i => .ofNat (Bytes.toNat ((bytes.drop (4 * i.val)).take 4))

/-- Compress the blocks of a chunk but the last one, which is left to its caller. -/
def chunkFrom (counter : Nat) (chaining : Chaining) (flags : UInt32) : Bytes → List Bytes → Compression
  | block, [] => ⟨chaining, words block, counter, block.length, flags ||| chunkEnd⟩
  | block, next :: rest =>
    chunkFrom counter ((⟨chaining, words block, counter, block.length, flags⟩ : Compression).output 0) 0 next rest

/-- The last compression of the chunk at a position. -/
def chunk (counter : Nat) (bytes : Bytes) : Compression :=
  match pieces 64 bytes with
  | [] => chunkFrom counter initial chunkStart [] []
  | block :: rest => chunkFrom counter initial chunkStart block rest

/-! ## The tree -/

/-- The compression of two neighbours. -/
def parent (a b : Compression) : Compression :=
  ⟨initial, a.output 0 ++ b.output 0, 0, 64, parentFlag⟩

/-- Join neighbours; one without a neighbour goes up as it is. -/
def joinPairs : List Compression → List Compression
  | a :: b :: rest => parent a b :: joinPairs rest
  | rest => rest

theorem length_joinPairs_le : ∀ l : List Compression, (joinPairs l).length ≤ l.length
  | [] => Nat.le_refl _
  | [_] => Nat.le_refl _
  | _ :: _ :: rest => by
    have := length_joinPairs_le rest
    simp only [joinPairs, List.length_cons]
    omega

/-- The last compression of all, over a first one and those to its right. -/
def root (first : Compression) : List Compression → Compression
  | [] => first
  | second :: rest => root (parent first second) (joinPairs rest)
termination_by others => others.length
decreasing_by exact Nat.lt_succ_of_le (length_joinPairs_le rest)

/-- The hash of bytes. -/
def hash (bytes : Bytes) : Digest :=
  let top :=
    match (pieces 1024 bytes).mapIdx chunk with
    | [] => chunk 0 []
    | first :: rest => root first rest
  let out := top.output rootFlag
  Vector.ofFn fun i => (out[i.val / 4] >>> UInt32.ofNat (8 * (i.val % 4))).toUInt8

end AccessRules.Blake3
