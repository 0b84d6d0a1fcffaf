import Backtest.Number.Binary64

/-!
# Statistics of lists

Sums run from the left and start from `-0.0`, the number that adding leaves every double as it is.
The statistics of an empty list are zero.
-/
namespace Backtest.Statistics

/-- The sum of a list. -/
def sum (xs : List Float) : Float := xs.foldl (· + ·) (-0.0)

/-- The arithmetic mean. -/
def mean (xs : List Float) : Float :=
  if xs.isEmpty then 0 else sum xs / Float.ofNat xs.length

/-- The middle value in the total order, or the mean of the two in the middle. -/
def median (xs : List Float) : Float :=
  let sorted := xs.mergeSort fun a b => decide (Binary64.orderKey a ≤ Binary64.orderKey b)
  let middle := sorted.length / 2
  if sorted.isEmpty then 0
  else if sorted.length % 2 == 0 then
    (sorted.getD (middle - 1) 0 + sorted.getD middle 0) / 2
  else sorted.getD middle 0

/-- The standard deviation of a sample. -/
def sampleDeviation (xs : List Float) : Float :=
  if xs.length < 2 then 0
  else
    let m := mean xs
    (sum (xs.map fun x => (x - m) * (x - m)) / Float.ofNat (xs.length - 1)).sqrt

/-- The number itself when it is finite, else zero. -/
def orZero (x : Float) : Float := if x.isFinite then x else 0

/-- The number itself when it is finite. -/
def finite? (x : Float) : Option Float := if x.isFinite then some x else none

end Backtest.Statistics
