import Backtest.Number.Layout
import Backtest.Performance.Metrics

/-!
# Guardrails

Limits that a candidate has to keep to be ranked. The first one broken is the reason to leave it
out.
-/
namespace Backtest

/-- Why a candidate is not ranked. -/
inductive Disqualification where
  | tooFewTrades (trades least : Nat)
  | drawdownTooDeep (drawdownPct capPct : Float)
  | lotteryTrade (share threshold : Float)

/-- The wording of a reason. -/
def Disqualification.message : Disqualification → String
  | tooFewTrades trades least => s!"too few trades ({trades} < {least})"
  | drawdownTooDeep drawdown cap =>
    "drawdown " ++ FixedPlaces.write 2 drawdown ++ "% exceeds cap " ++
      FixedPlaces.write 2 cap ++ "%"
  | lotteryTrade share threshold =>
    "single trade is " ++ FixedPlaces.write 1 (share * 100) ++ "% of net profit (limit " ++
      FixedPlaces.write 1 (threshold * 100) ++ "%)"

/-- The limits. -/
structure Guardrails where
  minTrades : Nat := 5
  maxDrawdownPct : Float := 50
  lotteryTradeThreshold : Float := 0.5

namespace Guardrails

/-- The first limit that the figures break. -/
def check (g : Guardrails) (m : Metrics) : Option Disqualification :=
  if m.totalTrades < g.minTrades then some (.tooFewTrades m.totalTrades g.minTrades)
  else if g.maxDrawdownPct < m.maxDrawdownPct then
    some (.drawdownTooDeep m.maxDrawdownPct g.maxDrawdownPct)
  else
    match m.largestWinShare with
    | some share =>
      if g.lotteryTradeThreshold < share then some (.lotteryTrade share g.lotteryTradeThreshold)
      else none
    | none => none

/-- The limits as a document. -/
def toDocument (g : Guardrails) : Document :=
  .table [("min_trades", .integer g.minTrades), ("max_drawdown_pct", .real g.maxDrawdownPct),
    ("lottery_trade_threshold", .real g.lotteryTradeThreshold)]

/-- The limits of a document; absent fields have their defaults. -/
def ofDocument? (d : Document) : Option Guardrails := do
  let r ← Record.ofDocument? ["min_trades", "max_drawdown_pct", "lottery_trade_threshold"] d
  let g : Guardrails := {}
  some {
    minTrades := ← r.defaulted "min_trades" g.minTrades Document.count?
    maxDrawdownPct := ← r.defaulted "max_drawdown_pct" g.maxDrawdownPct Document.real?
    lotteryTradeThreshold :=
      ← r.defaulted "lottery_trade_threshold" g.lotteryTradeThreshold Document.real? }

end Guardrails
end Backtest
