/-!
# The random generator

ChaCha with twelve rounds as a stream of words of 32 bits. A generator is a key, the number of the
block that comes next, and the words left of the block before; drawing returns a word and the
generator that goes on. A seed of 64 bits fills the key with the output of a small congruential
generator.
-/
namespace Backtest

/-- A stream of random words. -/
structure Generator where
  key : Vector UInt32 8
  block : UInt64
  buffer : List UInt32

namespace Generator

/-- The sixteen words of a block. -/
abbrev Block := Vector UInt32 16

/-- Rotation of a word to the left. -/
def rotateLeft (w n : UInt32) : UInt32 := (w <<< n) ||| (w >>> (32 - n))

/-- The word at a place. -/
def word (s : Block) (i : Nat) : UInt32 := s[i]?.getD 0

/-- Mixes four words of a block. -/
def quarterRound (s : Block) (a b c d : Nat) : Block :=
  let va := word s a + word s b
  let vd := rotateLeft (word s d ^^^ va) 16
  let vc := word s c + vd
  let vb := rotateLeft (word s b ^^^ vc) 12
  let va := va + vb
  let vd := rotateLeft (vd ^^^ va) 8
  let vc := vc + vd
  let vb := rotateLeft (vb ^^^ vc) 7
  (((s.setIfInBounds a va).setIfInBounds b vb).setIfInBounds c vc).setIfInBounds d vd

/-- A round over the columns and a round over the diagonals. -/
def doubleRound (s : Block) : Block :=
  let s := quarterRound s 0 4 8 12
  let s := quarterRound s 1 5 9 13
  let s := quarterRound s 2 6 10 14
  let s := quarterRound s 3 7 11 15
  let s := quarterRound s 0 5 10 15
  let s := quarterRound s 1 6 11 12
  let s := quarterRound s 2 7 8 13
  quarterRound s 3 4 9 14

/-- A number of double rounds. -/
def doubleRounds : Nat → Block → Block
  | 0, s => s
  | n + 1, s => doubleRounds n (doubleRound s)

/-- The words of the block with a number. -/
def blockWords (key : Vector UInt32 8) (number : UInt64) : List UInt32 :=
  let constants : Vector UInt32 4 := #v[0x61707865, 0x3320646E, 0x79622D32, 0x6B206574]
  let counter : Vector UInt32 4 := #v[number.toUInt32, (number >>> 32).toUInt32, 0, 0]
  let start : Block := constants ++ key ++ counter
  (Vector.zipWith (· + ·) start (doubleRounds 6 start)).toList

/-- The next word of 32 bits. -/
def next32 (g : Generator) : UInt32 × Generator :=
  match g.buffer with
  | w :: rest => (w, { g with buffer := rest })
  | [] =>
    match blockWords g.key g.block with
    | w :: rest => (w, ⟨g.key, g.block + 1, rest⟩)
    | [] => (0, ⟨g.key, g.block + 1, []⟩)

/-- The next word of 64 bits: two of 32 bits, the low one first. -/
def next64 (g : Generator) : UInt64 × Generator :=
  let (low, g) := g.next32
  let (high, g) := g.next32
  (low.toUInt64 ||| (high.toUInt64 <<< 32), g)

/-- One step of the congruential generator that spreads a seed. -/
def spreadStep (state : UInt64) : UInt32 × UInt64 :=
  let state := state * 6364136223846793005 + 11634580027462260723
  let mixed := (((state >>> 18) ^^^ state) >>> 27).toUInt32
  let turn := (state >>> 59).toUInt32
  ((mixed >>> turn) ||| (mixed <<< ((32 - turn) % 32)), state)

/-- The key words of a seed. -/
def spread : Nat → UInt64 → List UInt32
  | 0, _ => []
  | n + 1, state =>
    let (w, state) := spreadStep state
    w :: spread n state

/-- The generator of a seed. -/
def ofSeed (seed : UInt64) : Generator :=
  let words := spread 8 seed
  ⟨Vector.ofFn fun i : Fin 8 => words.getD i 0, 0, []⟩

end Generator
end Backtest
