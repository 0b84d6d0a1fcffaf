import Backtest.Indicator.Ema

/-!
# The trend of a higher time frame

Every `multiplier` candles make a bar that closes with the last of them. The average advances when a
bar closes, so the candles of an unfinished bar do not count.
-/
namespace Backtest

/-- The average of the bars, the last bar's close, and how many candles the next bar has so far. -/
structure Trend where
  multiplier : Nat
  inBar : Nat
  average : Ema
  lastClose : Option Float

namespace Trend

/-- A trend without candles; a multiplier of zero counts as one. -/
def new (multiplier period : Nat) : Trend := ⟨max multiplier 1, 0, .new period, none⟩

/-- Takes the close of one candle. -/
def update (t : Trend) (close : Float) : Trend :=
  if t.inBar + 1 = t.multiplier then
    { t with inBar := 0, average := t.average.update close, lastClose := some close }
  else { t with inBar := t.inBar + 1 }

/-- The trend after all of these closes. -/
def updateAll (t : Trend) (closes : List Float) : Trend := closes.foldl update t

/-- The average of the bars, once it is warm. -/
def average? (t : Trend) : Option Float := t.average.value?

/-- Whether the last bar closed below the average. A cold trend is not down. -/
def isFalling (t : Trend) : Bool :=
  match t.lastClose, t.average? with
  | some close, some average => close < average
  | _, _ => false

end Trend
end Backtest
