/-!
# Simple moving average

The mean of the last `period` closes, from a sum that gains each new close and loses the one that
leaves the window.
-/
namespace Backtest

/-- A simple moving average: the closes in its window, oldest first, and their running sum. -/
structure Sma where
  period : Nat
  window : List Float
  sum : Float

namespace Sma

/-- An average without closes; a period of zero counts as one. -/
def new (period : Nat) : Sma := ⟨max period 1, [], 0⟩

/-- The average, once the window is full. -/
def value? (s : Sma) : Option Float :=
  if s.window.length = s.period then some (s.sum / Float.ofNat s.period) else none

/-- Takes one close. -/
def update (s : Sma) (close : Float) : Sma :=
  let window := s.window ++ [close]
  let sum := s.sum + close
  if s.period < window.length then
    match window with
    | leaving :: rest => { s with window := rest, sum := sum - leaving }
    | [] => { s with window := [], sum }
  else { s with window, sum }

end Sma
end Backtest
