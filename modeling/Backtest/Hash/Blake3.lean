/-!
# BLAKE3

The hash function BLAKE3 with its digest of 32 bytes. A text is cut into chunks of 1024 bytes and
these into blocks of 64. Each chunk folds its blocks into a chaining value, and chaining values are
joined in pairs, a level at a time, until two are left under the root.
-/
namespace Backtest.Blake3

/-- The sixteen words of a state or a message block. -/
abbrev Words := Vector UInt32 16

/-- A chaining value. -/
abbrev Chain := Vector UInt32 8

/-- The initial chaining value. -/
def initial : Chain :=
  #v[0x6A09E667, 0xBB67AE85, 0x3C6EF372, 0xA54FF53A, 0x510E527F, 0x9B05688C, 0x1F83D9AB, 0x5BE0CD19]

/-- The mark of the first block of a chunk. -/
def chunkStart : UInt32 := 1

/-- The mark of the last block of a chunk. -/
def chunkEnd : UInt32 := 2

/-- The mark of a block that joins two subtrees. -/
def parentNode : UInt32 := 4

/-- The mark of the block that the digest is read from. -/
def rootNode : UInt32 := 8

/-- Rotation of a word to the right. -/
def rotateRight (w n : UInt32) : UInt32 := (w >>> n) ||| (w <<< (32 - n))

/-- Mixes two message words into four words of the state. -/
def mix (s : Words) (a b c d : Fin 16) (x y : UInt32) : Words :=
  let va := s[a] + s[b] + x
  let vd := rotateRight (s[d] ^^^ va) 16
  let vc := s[c] + vd
  let vb := rotateRight (s[b] ^^^ vc) 12
  let va := va + vb + y
  let vd := rotateRight (vd ^^^ va) 8
  let vc := vc + vd
  let vb := rotateRight (vb ^^^ vc) 7
  (((s.set a va).set b vb).set c vc).set d vd

/-- One round: the columns, then the diagonals. -/
def round (s m : Words) : Words :=
  let s := mix s 0 4 8 12 m[0] m[1]
  let s := mix s 1 5 9 13 m[2] m[3]
  let s := mix s 2 6 10 14 m[4] m[5]
  let s := mix s 3 7 11 15 m[6] m[7]
  let s := mix s 0 5 10 15 m[8] m[9]
  let s := mix s 1 6 11 12 m[10] m[11]
  let s := mix s 2 7 8 13 m[12] m[13]
  mix s 3 4 9 14 m[14] m[15]

/-- The order of the message words in the next round. -/
def permute (m : Words) : Words :=
  #v[m[2], m[6], m[3], m[10], m[7], m[0], m[4], m[13],
    m[1], m[11], m[12], m[5], m[9], m[14], m[15], m[8]]

/-- A number of rounds with the words permuted between them. -/
def rounds : Nat → Words → Words → Words
  | 0, s, _ => s
  | n + 1, s, m => rounds n (round s m) (permute m)

/-- Compresses a block into a chaining value. -/
def compress (chain : Chain) (block : Words) (counter : UInt64) (length flags : UInt32) : Chain :=
  let start : Words :=
    #v[chain[0], chain[1], chain[2], chain[3], chain[4], chain[5], chain[6], chain[7],
      initial[0], initial[1], initial[2], initial[3],
      counter.toUInt32, (counter >>> 32).toUInt32, length, flags]
  let s := rounds 7 start block
  Vector.ofFn fun i : Fin 8 => s[i.val] ^^^ s[i.val + 8]

/-- The word of four bytes, the lowest first; missing bytes are zero. -/
def wordAt (bytes : Array UInt8) (i : Nat) : UInt32 :=
  let byte (k : Nat) : UInt32 := (bytes.getD (4 * i + k) 0).toUInt32
  byte 0 ||| (byte 1 <<< 8) ||| (byte 2 <<< 16) ||| (byte 3 <<< 24)

/-- The words of at most 64 bytes. -/
def blockWords (bytes : List UInt8) : Words :=
  let bytes := bytes.toArray
  Vector.ofFn fun i : Fin 16 => wordAt bytes i

/-- Cuts a list into pieces of `n`; the last may be shorter. Empty input is one empty piece. -/
def pieces {α : Type} (n : Nat) : Nat → List α → List (List α)
  | 0, xs => [xs]
  | fuel + 1, xs => if xs.length ≤ n then [xs] else xs.take n :: pieces n fuel (xs.drop n)

/-- Folds the blocks of a chunk; `last` marks its final block. -/
def foldBlocks (counter : UInt64) (last : UInt32) : Chain → UInt32 → List (List UInt8) → Chain
  | chain, _, [] => chain
  | chain, first, [b] =>
    compress chain (blockWords b) counter b.length.toUInt32 (first ||| last)
  | chain, first, b :: rest =>
    foldBlocks counter last (compress chain (blockWords b) counter b.length.toUInt32 first) 0 rest

/-- The chaining value of a chunk. -/
def chunk (counter : UInt64) (mark : UInt32) (bytes : List UInt8) : Chain :=
  foldBlocks counter (chunkEnd ||| mark) initial chunkStart (pieces 64 bytes.length bytes)

/-- The chaining value of a node above two others. -/
def parent (mark : UInt32) (l r : Chain) : Chain :=
  let block : Words := Vector.ofFn fun i : Fin 16 =>
    if h : i.val < 8 then l[i.val] else r[i.val - 8]
  compress initial block 0 64 (parentNode ||| mark)

/-- Joins neighbours; one without a neighbour stays. -/
def joinPairs : List Chain → List Chain
  | l :: r :: rest => parent 0 l r :: joinPairs rest
  | short => short

/-- The chaining value of the root above these nodes. -/
def join : Nat → List Chain → Chain
  | _, [l, r] => parent rootNode l r
  | fuel + 1, nodes => join fuel (joinPairs nodes)
  | 0, _ => initial

/-- The root of a text. -/
def root (bytes : List UInt8) : Chain :=
  match pieces 1024 bytes.length bytes with
  | [only] => chunk 0 rootNode only
  | chunks =>
    join chunks.length (chunks.mapIdx fun i c => chunk i.toUInt64 0 c)

/-- The four bytes of a word, the lowest first. -/
def wordBytes (w : UInt32) : List UInt8 :=
  [w.toUInt8, (w >>> 8).toUInt8, (w >>> 16).toUInt8, (w >>> 24).toUInt8]

/-- The digest of a text. -/
def digest (bytes : List UInt8) : List UInt8 := (root bytes).toList.flatMap wordBytes

/-- The digest in lower-case hexadecimal digits. -/
def hexDigest (bytes : List UInt8) : String :=
  String.ofList ((digest bytes).flatMap fun b =>
    [Nat.digitChar (b.toNat / 16), Nat.digitChar (b.toNat % 16)])

end Backtest.Blake3
