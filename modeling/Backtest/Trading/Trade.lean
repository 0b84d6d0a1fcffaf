import Backtest.Document.Record
import Backtest.Market.Candle

/-!
# Trades

A trade is a position that was opened and closed. The balance after each close makes the equity
curve.
-/
namespace Backtest

/-- The direction of a position. -/
inductive Side where
  | long
  | short
deriving Repr, DecidableEq

namespace Side

/-- One for long, minus one for short. -/
def sign : Side → Float
  | long => 1
  | short => -1

/-- The other direction. -/
def opposite : Side → Side
  | long => short
  | short => long

/-- The name of a side. -/
def name : Side → String
  | long => "long"
  | short => "short"

/-- The side with a name. -/
def ofName? : String → Option Side
  | "long" => some long
  | "short" => some short
  | _ => none

end Side

/-- Why a position was closed. -/
inductive ExitReason where
  | takeProfit
  | stopLoss
  | trailingStop
  | signalReversal
  | endOfData
deriving Repr, DecidableEq

namespace ExitReason

/-- The name of a reason. -/
def name : ExitReason → String
  | takeProfit => "take_profit"
  | stopLoss => "stop_loss"
  | trailingStop => "trailing_stop"
  | signalReversal => "signal_reversal"
  | endOfData => "end_of_data"

/-- All reasons. -/
def all : List ExitReason := [takeProfit, stopLoss, trailingStop, signalReversal, endOfData]

/-- The reason with a name. -/
def ofName? (s : String) : Option ExitReason := all.find? (·.name == s)

end ExitReason

/-- A closed trade. Profit is net of the fees of both ends, in money and as a percentage of the
margin. -/
structure Trade where
  side : Side
  entryTime : Instant
  entryPrice : Float
  entryIndex : Nat
  exitTime : Instant
  exitPrice : Float
  exitIndex : Nat
  exitReason : ExitReason
  quantity : Float
  fee : Float
  pnlUsd : Float
  pnlPct : Float
  candlesHeld : Nat

namespace Trade

/-- Whether the trade made a profit. -/
def isProfitable (t : Trade) : Bool := 0 < t.pnlUsd

/-- The trade as a document. -/
def toDocument (t : Trade) : Document :=
  .table [("side", .text t.side.name), ("entry_time", t.entryTime.toDocument),
    ("entry_price", .real t.entryPrice), ("entry_index", .integer t.entryIndex),
    ("exit_time", t.exitTime.toDocument), ("exit_price", .real t.exitPrice),
    ("exit_index", .integer t.exitIndex), ("exit_reason", .text t.exitReason.name),
    ("quantity", .real t.quantity), ("fee", .real t.fee), ("pnl_usd", .real t.pnlUsd),
    ("pnl_pct", .real t.pnlPct), ("candles_held", .integer t.candlesHeld)]

/-- The fields of a trade in order. -/
def fieldNames : List String :=
  ["side", "entry_time", "entry_price", "entry_index", "exit_time", "exit_price", "exit_index",
    "exit_reason", "quantity", "fee", "pnl_usd", "pnl_pct", "candles_held"]

/-- The trade of a document. -/
def ofDocument? (d : Document) : Option Trade := do
  let r ← Record.ofDocument? fieldNames d
  some {
    side := ← r.required "side" (Document.choice? Side.ofName?)
    entryTime := ← r.required "entry_time" Instant.ofDocument?
    entryPrice := ← r.required "entry_price" Document.real?
    entryIndex := ← r.required "entry_index" Document.count?
    exitTime := ← r.required "exit_time" Instant.ofDocument?
    exitPrice := ← r.required "exit_price" Document.real?
    exitIndex := ← r.required "exit_index" Document.count?
    exitReason := ← r.required "exit_reason" (Document.choice? ExitReason.ofName?)
    quantity := ← r.required "quantity" Document.real?
    fee := ← r.required "fee" Document.real?
    pnlUsd := ← r.required "pnl_usd" Document.real?
    pnlPct := ← r.required "pnl_pct" Document.real?
    candlesHeld := ← r.required "candles_held" Document.count? }

end Trade

/-- A position that is still open after the last candle, with its profit at the last close before
the fee of closing it. -/
structure OpenTrade where
  side : Side
  entryTime : Instant
  entryPrice : Float
  entryIndex : Nat
  quantity : Float
  entryFee : Float
  unrealizedPnlUsd : Float

/-- The open trade as a document. -/
def OpenTrade.toDocument (t : OpenTrade) : Document :=
  .table [("side", .text t.side.name), ("entry_time", t.entryTime.toDocument),
    ("entry_price", .real t.entryPrice), ("entry_index", .integer t.entryIndex),
    ("quantity", .real t.quantity), ("entry_fee", .real t.entryFee),
    ("unrealized_pnl_usd", .real t.unrealizedPnlUsd)]

/-- The realized balance at a time. -/
structure BalancePoint where
  time : Instant
  balance : Float

namespace BalancePoint

/-- The point as a document. -/
def toDocument (p : BalancePoint) : Document :=
  .table [("time", p.time.toDocument), ("cumulative_balance", .real p.balance)]

/-- The point of a document. -/
def ofDocument? (d : Document) : Option BalancePoint := do
  let r ← Record.ofDocument? ["time", "cumulative_balance"] d
  some {
    time := ← r.required "time" Instant.ofDocument?
    balance := ← r.required "cumulative_balance" Document.real? }

end BalancePoint
end Backtest
