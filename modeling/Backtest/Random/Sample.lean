import Backtest.Random.ChaCha
import Std.Data.HashSet

/-!
# Sampling without repetition

Draws distinct numbers below a length. A word is brought below a bound by the high half of a wide
product, and drawn again while the low half falls into the part that would make the result uneven.
Three methods give the same kind of answer at different cost: shuffling the front of the whole
range, Floyd's method of replacing a repeated number by the newest of the range, and drawing until a
number is new. A draw is repeated until it succeeds, which only the words of the generator decide.
Here the repetitions are bounded, by any bound: a draw that meets it gives a number that is in range
and new as well.
-/
namespace Backtest.Sample

/-- How often a draw is repeated at most where nothing else is said. -/
def standardPatience : Nat := 1000

/-- A word that is even over its range: `bits` wide, below `range` after scaling, accepted up to
`zone`. -/
def drawScaled (bits range zone : Nat) (next : Generator → Nat × Generator) :
    Nat → Generator → Nat × Generator
  | 0, g => (0, g)
  | tries + 1, g =>
    let (v, g) := next g
    let wide := v * range
    if wide % Nat.pow 2 bits ≤ zone then (wide / Nat.pow 2 bits, g)
    else drawScaled bits range zone next tries g

/-- A word of 32 bits as a natural. -/
def word32 (g : Generator) : Nat × Generator :=
  let (w, g) := g.next32
  (w.toNat, g)

/-- A word of 64 bits as a natural. -/
def word64 (g : Generator) : Nat × Generator :=
  let (w, g) := g.next64
  (w.toNat, g)

section

variable (patience : Nat)

/-- A number from `low` up to and with `high`, both of 32 bits. -/
def between (low high : Nat) (g : Generator) : Nat × Generator :=
  let range := high - low + 1
  if range = 4294967296 then word32 g
  else
    let zone := range * Nat.pow 2 (31 - range.log2) - 1
    let (n, g) := drawScaled 32 range zone word32 patience g
    (low + n, g)

/-- A number below `length` from words that are `bits` wide. -/
def below (bits : Nat) (next : Generator → Nat × Generator) (length : Nat) (g : Generator) :
    Nat × Generator :=
  let rejected := (Nat.pow 2 bits - length) % length
  drawScaled bits length (Nat.pow 2 bits - 1 - rejected) next patience g

/-- Exchanges the next places with places at or after them. -/
def shuffleFront (length : Nat) : Nat → Nat → Array Nat → Generator → Array Nat
  | 0, _, xs, _ => xs
  | count + 1, i, xs, g =>
    let (j, g) := between patience i (length - 1) g
    shuffleFront length count (i + 1) (xs.swapIfInBounds i j) g

/-- The front of the shuffled range. -/
def inPlace (length amount : Nat) (g : Generator) : List Nat :=
  (shuffleFront patience length amount 0 (Array.range length) g).toList.take amount

/-- Takes a number up to each of the last `count` of the range, or that one itself when the number
is taken already. -/
def floyd (length : Nat) : Nat → List Nat → Generator → List Nat
  | 0, taken, _ => taken
  | count + 1, taken, g =>
    let newest := length - (count + 1)
    let (t, g) := between patience 0 newest g
    floyd length count ((if taken.contains t then newest else t) :: taken) g

end

/-- The least number that is not taken, among so many from `i` on. -/
def leastNew (taken : Std.HashSet Nat) : Nat → Nat → Nat
  | 0, i => i
  | more + 1, i => if taken.contains i then leastNew taken more (i + 1) else i

/-- A number that is not taken. -/
def drawNew (draw : Generator → Nat × Generator) (taken : Std.HashSet Nat) :
    Nat → Generator → Nat × Generator
  | 0, g => (leastNew taken taken.size 0, g)
  | tries + 1, g =>
    let (n, g) := draw g
    if taken.contains n then drawNew draw taken tries g else (n, g)

/-- Numbers that are each new. -/
def rejecting (patience : Nat) (draw : Generator → Nat × Generator) :
    Nat → Std.HashSet Nat → Generator → List Nat
  | 0, _, _ => []
  | count + 1, taken, g =>
    let (n, g) := drawNew draw taken patience g
    n :: rejecting patience draw count (taken.insert n) g

/-- Whether shuffling beats the other methods, by a rough estimate in single precision. -/
def prefersShuffle (length amount : Nat) : Bool :=
  let l := length.toUInt32.toFloat32
  let a := amount.toUInt32.toFloat32
  if amount < 163 then
    let slope : Float32 := if length < 500000 then 1.6 else 8.0 / 45.0
    let offset : Float32 := if length < 500000 then 10.0 else 70.0 / 9.0
    11 < amount && l < (offset + slope * a) * a
  else
    let slope : Float32 := if length < 500000 then 270.0 else 330.0 / 9.0
    l < slope * a

/-- Distinct numbers below `length`, as many as `amount`, in rising order. -/
def indices (length amount : Nat) (g : Generator) (patience : Nat := standardPatience) : List Nat :=
  let drawn :=
    if 4294967296 ≤ length then rejecting patience (below patience 64 word64 length) amount ∅ g
    else if prefersShuffle length amount then inPlace patience length amount g
    else if amount < 163 then floyd patience length amount [] g
    else rejecting patience (below patience 32 word32 length) amount ∅ g
  drawn.mergeSort

end Backtest.Sample
