import Backtest.Number.Binary64

/-!
# Shortest decimals

The fewest significant decimal digits that read back as a given magnitude. A decimal reads back when
it lies between the midpoints to the two neighbouring doubles; a midpoint itself counts when the
mantissa is even. Of two decimals with equally few digits the nearer is taken, and a tie goes as the
caller asks.
-/
namespace Backtest.Shortest

open Binary64 (Magnitude)

/-- The side on which a decimal exactly between two candidates falls. -/
inductive Tie where
  | even
  | up
deriving Repr, DecidableEq

/-- A positive decimal: `digits * 10 ^ exponent`. -/
structure Decimal where
  digits : Nat
  exponent : Int
deriving Repr, DecidableEq

/-- A magnitude with the half distances to its neighbours, over one denominator. -/
structure Interval where
  value : Nat
  below : Nat
  above : Nat
  den : Nat
  closed : Bool

/-- The reals that read back as `m`. Below a power of two the neighbour is only half as far. -/
def Interval.of (m : Magnitude) : Interval :=
  let up := m.exponent.toNat
  let narrow := m.mantissa == 4503599627370496 && m.exponent > -1074
  { value := (4 * m.mantissa) <<< up
    below := (if narrow then 1 else 2) <<< up
    above := 2 <<< up
    den := 4 * m.den
    closed := m.mantissa % 2 == 0 }

/-- Whether the fraction `n / d` reads back. -/
def Interval.holds (i : Interval) (n d : Nat) : Bool :=
  let low := (i.value - i.below) * d
  let high := (i.value + i.above) * d
  let point := n * i.den
  if i.closed then low ≤ point && point ≤ high else low < point && point < high

/-- Whether `10 ^ e` is at most `n / d`. -/
def powerAtMost (e : Int) (n d : Nat) : Bool :=
  Nat.pow 10 e.toNat * d ≤ n * Nat.pow 10 (-e).toNat

/-- The exponent `e` with `10 ^ e ≤ n / d < 10 ^ (e + 1)`, from an estimate that is at most one
off. -/
def decimalExponent (n d : Nat) : Int :=
  let guess := ((n.log2 : Int) - (d.log2 : Int)) * 30103 / 100000
  if powerAtMost (guess + 1) n d then guess + 1
  else if powerAtMost guess n d then guess
  else guess - 1

/-- The candidate on the grid of multiples of `10 ^ k` that reads back, if one of the value's two
neighbours there does. -/
def onGrid? (tie : Tie) (i : Interval) (k : Int) : Option Decimal :=
  let grow := Nat.pow 10 k.toNat
  let shrink := Nat.pow 10 (-k).toNat
  let num := i.value * shrink
  let den := i.den * grow
  let lower := num / den
  let lowerHits := i.holds (lower * grow) shrink
  let upperHits := i.holds ((lower + 1) * grow) shrink
  let remainder := 2 * (num % den)
  let takeUpper := den < remainder ||
    (remainder == den && (tie == .up || lower % 2 == 1))
  match lowerHits, upperHits with
  | true, true => some ⟨if takeUpper then lower + 1 else lower, k⟩
  | true, false => some ⟨lower, k⟩
  | false, true => some ⟨lower + 1, k⟩
  | false, false => none

/-- The first hit on the grids of `e - tried`, `e - tried - 1`, … for at most `grids` of them. -/
def search (tie : Tie) (i : Interval) (e : Int) : Nat → Nat → Decimal
  | 0, tried =>
    ⟨i.value * Nat.pow 10 (tried - e).toNat / (i.den * Nat.pow 10 (e - tried).toNat), e - tried⟩
  | grids + 1, tried =>
    match onGrid? tie i (e - tried) with
    | some d => d
    | none => search tie i e grids (tried + 1)

/-- The shortest decimal of a magnitude. Seventeen digits always suffice. -/
def ofMagnitude (tie : Tie) (m : Magnitude) : Decimal :=
  let i := Interval.of m
  search tie i (decimalExponent i.value i.den) 17 0

end Backtest.Shortest
