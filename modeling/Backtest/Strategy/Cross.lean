/-!
# Crossings

The fast average crosses the slow one between two candles: upward from at or below it to strictly
above, or downward from at or above to strictly below.
-/
namespace Backtest

/-- A crossing of the averages. -/
inductive Cross where
  | golden
  | death
deriving Repr, DecidableEq

namespace Cross

/-- The name of a crossing. -/
def name : Cross → String
  | golden => "golden"
  | death => "death"

/-- The crossing between a pair of averages and the pair one candle later. -/
def detect (prevFast prevSlow fast slow : Float) : Option Cross :=
  if prevFast ≤ prevSlow ∧ slow < fast then some golden
  else if prevSlow ≤ prevFast ∧ fast < slow then some death
  else none

/-- The crossing between two pairs, when all four averages are warm. -/
def between (prevFast prevSlow fast slow : Option Float) : Option Cross :=
  match prevFast, prevSlow, fast, slow with
  | some pf, some ps, some f, some s => detect pf ps f s
  | _, _, _, _ => none

end Cross
end Backtest
