import Backtest.Document.Record
import Backtest.Performance.Drawdown
import Backtest.Performance.Statistics
import Backtest.Trading.Trade

/-!
# Performance metrics

What a list of trades and its equity curve amount to. Ratios without a denominator are absent, and
a figure that is not finite counts as zero, except the gross profit and loss.
-/
namespace Backtest

/-- From how many trades on a sample counts in full. -/
def tradeSaturation : Nat := 30

/-- The coefficients of the robust score. -/
structure RobustScore where
  drawdownWeight : Float := 0.5
  tradePenalty : Float := 10
  saturation : Nat := tradeSaturation

namespace RobustScore

/-- The coefficients as a document. -/
def toDocument (r : RobustScore) : Document :=
  .table [("drawdown_weight", .real r.drawdownWeight), ("trade_penalty", .real r.tradePenalty),
    ("trade_saturation", .integer r.saturation)]

/-- The coefficients of a document; absent fields have their defaults. -/
def ofDocument? (d : Document) : Option RobustScore := do
  let r ← Record.ofDocument? ["drawdown_weight", "trade_penalty", "trade_saturation"] d
  let s : RobustScore := {}
  some {
    drawdownWeight := ← r.defaulted "drawdown_weight" s.drawdownWeight Document.real?
    tradePenalty := ← r.defaulted "trade_penalty" s.tradePenalty Document.real?
    saturation := ← r.defaulted "trade_saturation" s.saturation Document.count? }

/-- The return less the weighted drawdown and a penalty that fades as trades come near the
saturation. -/
def score (r : RobustScore) (returnPct drawdownPct : Float) (trades : Nat) : Float :=
  let saturation := max r.saturation 1
  let coverage := Float.ofNat (min trades saturation) / Float.ofNat saturation
  returnPct - r.drawdownWeight * drawdownPct - r.tradePenalty * (1 - coverage)

end RobustScore

/-- The figures of one slice. -/
structure Metrics where
  totalReturnPct : Float
  totalTrades : Nat
  winningTrades : Nat
  losingTrades : Nat
  winRate : Float
  profitFactor : Option Float
  maxDrawdownPct : Float
  sharpeLikeRatio : Float
  robustScore : Float
  grossProfitUsd : Float
  grossLossUsd : Float
  netProfitUsd : Float
  finalBalance : Float
  avgTradePct : Float
  largestWinShare : Option Float

namespace Metrics

open Statistics

/-- The gain from one balance to another in percent. -/
def returnPct (initial final : Float) : Float :=
  if initial ≤ 0 then 0 else (final - initial) / initial * 100

/-- The share of trades that made a profit. -/
def winShare (trades : List Trade) : Float :=
  if trades.isEmpty then 0
  else Float.ofNat (trades.countP Trade.isProfitable) / Float.ofNat trades.length

/-- The sum of the profits. -/
def totalProfit (trades : List Trade) : Float :=
  sum ((trades.map (·.pnlUsd)).filter fun p => decide (0 < p))

/-- The sum of the losses, as a positive amount. -/
def totalLoss (trades : List Trade) : Float :=
  sum (((trades.map (·.pnlUsd)).filter fun p => decide (p < 0)).map Float.abs)

/-- Profits over losses, if there are losses. -/
def profitRatio? (profit loss : Float) : Option Float :=
  if loss ≤ 0 then none else finite? (profit / loss)

/-- The largest decline of an equity curve. -/
def drawdownPct (equity : List BalancePoint) : Float := Drawdown.maximum (equity.map (·.balance))

/-- The mean of the trades' percentages over their deviation, scaled by the root of their number up
to the saturation; zero for fewer than two trades or no deviation. -/
def sharpeLike (trades : List Trade) : Float :=
  let returns := trades.map (·.pnlPct)
  let deviation := sampleDeviation returns
  if returns.length < 2 ∨ deviation < 1e-12 then 0
  else mean returns / deviation * (Float.ofNat (min returns.length tradeSaturation)).sqrt

/-- The largest profit as a share of the net profit, if the trades made money. -/
def largestWin? (trades : List Trade) (net : Float) : Option Float :=
  if net ≤ 0 then none
  else
    let wins := (trades.map (·.pnlUsd)).filter fun p => decide (0 < p)
    finite? (wins.foldl Binary64.max 0 / net)

/-- All figures of trades and their equity curve. -/
def compute (trades : List Trade) (equity : List BalancePoint) (initial : Float)
    (robust : RobustScore) : Metrics :=
  let profit := totalProfit trades
  let loss := totalLoss trades
  let net := sum (trades.map (·.pnlUsd))
  let final := match equity.getLast? with
    | some p => p.balance
    | none => initial + net
  let gain := orZero (returnPct initial final)
  let drawdown := orZero (drawdownPct equity)
  { totalReturnPct := gain
    totalTrades := trades.length
    winningTrades := trades.countP Trade.isProfitable
    losingTrades := trades.countP fun t => decide (t.pnlUsd < 0)
    winRate := winShare trades
    profitFactor := profitRatio? profit loss
    maxDrawdownPct := drawdown
    sharpeLikeRatio := orZero (sharpeLike trades)
    robustScore := orZero (robust.score gain drawdown trades.length)
    grossProfitUsd := profit
    grossLossUsd := loss
    netProfitUsd := orZero net
    finalBalance := orZero final
    avgTradePct := orZero (mean (trades.map (·.pnlPct)))
    largestWinShare := largestWin? trades net }

/-- The figures of a slice without trades. -/
def idle (initial : Float) : Metrics := compute [] [] initial {}

/-- The fields in order. -/
def fieldNames : List String :=
  ["total_return_pct", "total_trades", "winning_trades", "losing_trades", "win_rate",
    "profit_factor", "max_drawdown_pct", "sharpe_like_ratio", "robust_score", "gross_profit_usd",
    "gross_loss_usd", "net_profit_usd", "final_balance", "avg_trade_pct", "largest_win_share"]

/-- An optional number as a document. -/
def optionalReal : Option Float → Document
  | none => .null
  | some x => .real x

/-- The figures as a document. -/
def toDocument (m : Metrics) : Document :=
  .table [("total_return_pct", .real m.totalReturnPct), ("total_trades", .integer m.totalTrades),
    ("winning_trades", .integer m.winningTrades), ("losing_trades", .integer m.losingTrades),
    ("win_rate", .real m.winRate), ("profit_factor", optionalReal m.profitFactor),
    ("max_drawdown_pct", .real m.maxDrawdownPct), ("sharpe_like_ratio", .real m.sharpeLikeRatio),
    ("robust_score", .real m.robustScore), ("gross_profit_usd", .real m.grossProfitUsd),
    ("gross_loss_usd", .real m.grossLossUsd), ("net_profit_usd", .real m.netProfitUsd),
    ("final_balance", .real m.finalBalance), ("avg_trade_pct", .real m.avgTradePct),
    ("largest_win_share", optionalReal m.largestWinShare)]

/-- The figures of a document. -/
def ofDocument? (d : Document) : Option Metrics := do
  let r ← Record.ofDocument? fieldNames d
  some {
    totalReturnPct := ← r.required "total_return_pct" Document.real?
    totalTrades := ← r.required "total_trades" Document.count?
    winningTrades := ← r.required "winning_trades" Document.count?
    losingTrades := ← r.required "losing_trades" Document.count?
    winRate := ← r.required "win_rate" Document.real?
    profitFactor := ← r.optional "profit_factor" Document.real?
    maxDrawdownPct := ← r.required "max_drawdown_pct" Document.real?
    sharpeLikeRatio := ← r.required "sharpe_like_ratio" Document.real?
    robustScore := ← r.required "robust_score" Document.real?
    grossProfitUsd := ← r.required "gross_profit_usd" Document.real?
    grossLossUsd := ← r.required "gross_loss_usd" Document.real?
    netProfitUsd := ← r.required "net_profit_usd" Document.real?
    finalBalance := ← r.required "final_balance" Document.real?
    avgTradePct := ← r.required "avg_trade_pct" Document.real?
    largestWinShare := ← r.optional "largest_win_share" Document.real? }

end Metrics
end Backtest
