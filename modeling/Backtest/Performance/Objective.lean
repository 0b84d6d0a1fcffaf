import Backtest.Performance.Metrics

/-!
# Objectives

The figure that a search maximizes. A missing profit factor is the cap when there was a profit, and
zero otherwise.
-/
namespace Backtest

/-- The figure to maximize. -/
inductive Objective where
  | sharpeLikeRatio
  | robustScore
  | totalReturnPct
  | winRate
  | profitFactor
deriving Repr, DecidableEq

namespace Objective

/-- All objectives. -/
def all : List Objective :=
  [sharpeLikeRatio, robustScore, totalReturnPct, winRate, profitFactor]

/-- The objective where none is named. -/
def standard : Objective := sharpeLikeRatio

/-- The name of an objective. -/
def name : Objective → String
  | sharpeLikeRatio => "sharpe_like_ratio"
  | robustScore => "robust_score"
  | totalReturnPct => "total_return_pct"
  | winRate => "win_rate"
  | profitFactor => "profit_factor"

/-- The objective with a name. -/
def ofName? (s : String) : Option Objective := all.find? (·.name == s)

/-- The largest profit factor that counts. -/
def profitFactorCap : Float := 100

/-- The value of the objective. -/
def extract (o : Objective) (m : Metrics) : Float :=
  match o with
  | sharpeLikeRatio => m.sharpeLikeRatio
  | robustScore => m.robustScore
  | totalReturnPct => m.totalReturnPct
  | winRate => m.winRate
  | profitFactor =>
    match m.profitFactor with
    | some x => Binary64.min x profitFactorCap
    | none => if 0 < m.grossProfitUsd then profitFactorCap else 0

/-- The value of an outcome that is neither good nor bad. -/
def neutral : Objective → Float
  | winRate => 0.5
  | profitFactor => 1
  | _ => 0

/-- Whether a value is better than neutral, worse, or neither. -/
def sign (o : Objective) (value : Float) : Int :=
  if o.neutral < value then 1 else if value < o.neutral then -1 else 0

end Objective
end Backtest
