import WebOfTrust.Text.Digits

/-!
# `WebOfTrust.Digest.Blake3`: the digest of a corpus

A report names the corpus it was computed from by its BLAKE3 digest. The input is cut into chunks of
1024 bytes and these into blocks of 64. A chunk folds its blocks into a chaining value of eight
words; chaining values are paired level by level, a single one at the end of a level moving up as it
is, until one is left. The last compression, of the only chunk or of the last pair, is the root.

The state of a compression is four rows of four words. A round mixes the columns, then the
diagonals, which are the columns once each row has been rotated by its number.
-/

set_option autoImplicit false

namespace WebOfTrust.Blake3

/-- The initial words. `compress` starts from them, and every chunk does. -/
def initial : List UInt32 :=
  [0x6A09E667, 0xBB67AE85, 0x3C6EF372, 0xA54FF53A, 0x510E527F, 0x9B05688C, 0x1F83D9AB, 0x5BE0CD19]

/-- The order in which a round takes the message words of the round before. `permute` applies it. -/
def permutation : List Nat := [2, 6, 3, 10, 7, 0, 4, 13, 1, 11, 12, 5, 9, 14, 15, 8]

/-- Marks the first block of a chunk. It is one of the flags that `compress` is given. -/
def chunkStart : UInt32 := 1
/-- Marks the last block of a chunk, which is the first one as well if there is only one.
`chunkValue` adds it to the flags of that block. -/
def chunkEnd : UInt32 := 2
/-- Marks a block that joins two chaining values. `parent` sets it. -/
def parentFlag : UInt32 := 4
/-- Marks the block from which the digest is taken. It is set for a single chunk, or for the
uppermost `parent`. -/
def rootFlag : UInt32 := 8

/-- The number of bytes of a chunk, the last of which may be shorter. `digestWords` cuts the bytes
into such pieces. -/
def chunkBytes : Nat := 1024
/-- The number of bytes of a block. `chunkValue` cuts a chunk into such pieces. -/
def blockBytes : Nat := 64

/-! ### Compression -/

/-- A word with its `n` last bits put before the others. -/
def rotateRight (w n : UInt32) : UInt32 := (w >>> n) ||| (w <<< (32 - n))

/-- One column of the state. `Column.mix` is the quarter round on it. -/
structure Column where
  a : UInt32
  b : UInt32
  c : UInt32
  d : UInt32

/-- Mixes two message words into a column. All additions are modulo 2 ^ 32. -/
def Column.mix (s : Column) (x y : UInt32) : Column :=
  let a := s.a + s.b + x
  let d := rotateRight (s.d ^^^ a) 16
  let c := s.c + d
  let b := rotateRight (s.b ^^^ c) 12
  let a := a + b + y
  let d := rotateRight (d ^^^ a) 8
  let c := c + d
  let b := rotateRight (b ^^^ c) 7
  ⟨a, b, c, d⟩

/-- The state as rows. Each row has four words, of which `Rows.columns` makes columns. -/
structure Rows where
  a : List UInt32
  b : List UInt32
  c : List UInt32
  d : List UInt32

/-- The four columns of a state. `Rows.ofColumns` is the way back. -/
def Rows.columns (s : Rows) : List Column :=
  List.zipWith (fun (a, b) (c, d) => ⟨a, b, c, d⟩) (s.a.zip s.b) (s.c.zip s.d)

/-- The state with the given columns, the inverse of `Rows.columns`. -/
def Rows.ofColumns (cs : List Column) : Rows :=
  ⟨cs.map (·.a), cs.map (·.b), cs.map (·.c), cs.map (·.d)⟩

/-- Mixes a pair of message words into each column. It is used for diagonals as well, which
`Rows.skew` turns into columns. -/
def Rows.mixColumns (s : Rows) (pairs : List (UInt32 × UInt32)) : Rows :=
  .ofColumns (List.zipWith (fun col (x, y) => col.mix x y) s.columns pairs)

/-- Turns the diagonals into columns. `Rows.unskew` undoes it. -/
def Rows.skew (s : Rows) : Rows :=
  ⟨s.a, s.b.rotateLeft 1, s.c.rotateLeft 2, s.d.rotateLeft 3⟩

/-- Turns the columns back into diagonals. The rotations are those of `Rows.skew`, completed to
four. -/
def Rows.unskew (s : Rows) : Rows :=
  ⟨s.a, s.b.rotateLeft 3, s.c.rotateLeft 2, s.d.rotateLeft 1⟩

/-- Neighbouring words, two by two. `Rows.round` needs eight pairs. -/
def pairUp : List UInt32 → List (UInt32 × UInt32)
  | x :: y :: rest => (x, y) :: pairUp rest
  | _ => []

/-- A round: the columns are mixed, then the diagonals, with two message words each. The first four
pairs are for the columns, the rest for the diagonals. -/
def Rows.round (s : Rows) (message : List UInt32) : Rows :=
  let pairs := pairUp message
  ((s.mixColumns (pairs.take 4)).skew.mixColumns (pairs.drop 4)).unskew

/-- The message words in the order in which the next round takes them. `permutation` lists the
places. -/
def permute (message : List UInt32) : List UInt32 :=
  permutation.map fun i => message.getD i 0

/-- Some rounds, each with the message words in a new order. There are seven of them in
`compress`. -/
def Rows.rounds : Nat → Rows → List UInt32 → Rows
  | 0, s, _ => s
  | n + 1, s, message => rounds n (s.round message) (permute message)

/-- The chaining value of eight words after a block of sixteen. `counter` is the number of the
chunk, and `length` that of the bytes in the block. -/
def compress (chaining block : List UInt32) (counter length : Nat) (flags : UInt32) :
    List UInt32 :=
  let s : Rows :=
    ⟨chaining.take 4, chaining.drop 4, initial.take 4,
      [UInt32.ofNat counter, UInt32.ofNat (counter / UInt32.size), UInt32.ofNat length, flags]⟩
  let s := s.rounds 7 block
  -- The two halves of the state are folded into one.
  List.zipWith (· ^^^ ·) (s.a ++ s.b) (s.c ++ s.d)

/-! ### Chunks -/

/-- `l` in pieces of `n`, the last of which may be shorter. -/
def pieces {α : Type} (n : Nat) (l : List α) : List (List α) :=
  if _h : n = 0 ∨ l.length ≤ n then [l]
  else l.take n :: pieces n (l.drop n)
termination_by l.length
decreasing_by simp; omega

/-- The word that four bytes spell, the least significant first. Missing bytes are zero. `wordBytes`
is the way back. -/
def wordOf (bytes : List UInt8) : UInt32 :=
  bytes.foldr (fun b w => w * 256 + b.toUInt32) 0

/-- The sixteen words of a block. A shorter block is filled up with zeros. -/
def blockWords (bytes : List UInt8) : List UInt32 :=
  let padded := bytes ++ List.replicate (blockBytes - bytes.length) 0
  (pieces 4 padded).map wordOf

/-- Folds the blocks of a chunk. `first` marks the block that begins it; `last` are the flags of the
block that ends it. -/
def foldBlocks (counter : Nat) (last : UInt32) :
    (first : UInt32) → List UInt32 → List (List UInt8) → List UInt32
  | _, chaining, [] => chaining
  | first, chaining, [block] =>
    compress chaining (blockWords block) counter block.length (first ||| last)
  | first, chaining, block :: rest =>
    foldBlocks counter last 0 (compress chaining (blockWords block) counter block.length first) rest

/-- The chaining value of a chunk, with flags that its end gets besides its own. `foldBlocks` goes
through its blocks. -/
def chunkValue (flags : UInt32) (counter : Nat) (chunk : List UInt8) : List UInt32 :=
  foldBlocks counter (chunkEnd ||| flags) chunkStart initial (pieces blockBytes chunk)

/-! ### The tree -/

/-- The chaining value of a node of the tree, from those of its two children. A `parent` has no
counter, as its place is given by the tree. -/
def parent (flags : UInt32) (left right : List UInt32) : List UInt32 :=
  compress initial (left ++ right) 0 blockBytes (parentFlag ||| flags)

/-- One level of the tree above another. A last value without a partner goes up as it is. -/
def pairLevel : List (List UInt32) → List (List UInt32)
  | left :: right :: rest => parent 0 left right :: pairLevel rest
  | level => level

/-- A level has no more nodes than the one below it. The recursion of `root` ends by this. -/
theorem length_pairLevel_le (level : List (List UInt32)) :
    (pairLevel level).length ≤ level.length := by
  fun_induction pairLevel level with
  | case1 _ _ _ ih => simp; omega
  | case2 => simp

/-- The root above a level of chaining values. `pairLevel` is repeated until two values are left. -/
def root : List (List UInt32) → List UInt32
  | [] => []
  | [value] => value
  | [left, right] => parent rootFlag left right
  | left :: right :: third :: rest =>
    root (parent 0 left right :: pairLevel (third :: rest))
termination_by level => level.length
decreasing_by
  have := length_pairLevel_le (third :: rest)
  simp at this ⊢
  omega

/-- The digest of a byte sequence, in words. A single chunk is a root by itself. -/
def digestWords (bytes : List UInt8) : List UInt32 :=
  match pieces chunkBytes bytes with
  | [chunk] => chunkValue rootFlag 0 chunk
  | chunks => root (chunks.mapIdx fun i chunk => chunkValue 0 i chunk)

/-- The bytes of a word, the least significant first. Digests are written in this order. -/
def wordBytes (w : UInt32) : List UInt8 :=
  [w.toUInt8, (w >>> 8).toUInt8, (w >>> 16).toUInt8, (w >>> 24).toUInt8]

/-- The digest of a byte sequence, in hexadecimal digits. A `Report` carries this text. -/
def hexDigest (bytes : List UInt8) : String :=
  String.ofList (((digestWords bytes).flatMap wordBytes).flatMap Text.hexByte)

end WebOfTrust.Blake3
