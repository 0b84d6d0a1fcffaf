import Backtest.Strategy.Trend
import Backtest.Trading.Trade

/-!
# Entry filters

A crossing opens a position only when the averages are far enough apart, and a short only when the
trend of the higher time frame is down.
-/
namespace Backtest

/-- What the filters say about an entry. -/
inductive EntryVerdict where
  | passed
  | tooClose
  | againstTrend
deriving Repr, DecidableEq

/-- The name of a verdict. -/
def EntryVerdict.name : EntryVerdict → String
  | passed => "passed"
  | tooClose => "filtered_by_separation"
  | againstTrend => "filtered_by_higher_timeframe"

namespace EntryFilter

/-- Whether the averages are at least a share of the close apart; zero asks for nothing. -/
def isSeparated (fast slow close minimum : Float) : Bool :=
  decide (minimum ≤ 0) || decide (minimum ≤ (fast - slow).abs / close)

/-- Whether the trend, if one is watched, allows the side. -/
def allows (side : Side) (trend : Option Trend) : Bool :=
  match side, trend with
  | .short, some t => t.isFalling
  | _, _ => true

/-- The verdict on an entry. -/
def verdict (side : Side) (fast slow close minimum : Float) (trend : Option Trend) : EntryVerdict :=
  if !isSeparated fast slow close minimum then .tooClose
  else if !allows side trend then .againstTrend
  else .passed

end EntryFilter
end Backtest
