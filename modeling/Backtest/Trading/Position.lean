import Backtest.Trading.Trade

/-!
# Open positions

A position with the levels that close it. A level exists only for a percentage above zero.
-/
namespace Backtest

/-- The price at which a position takes its profit. -/
def targetPrice (side : Side) (entry pct : Float) : Float :=
  match side with
  | .long => entry * (1 + pct)
  | .short => entry * (1 - pct)

/-- The price at which a position stops its loss. -/
def stopPrice (side : Side) (entry pct : Float) : Float :=
  match side with
  | .long => entry * (1 - pct)
  | .short => entry * (1 + pct)

/-- An open position. The water mark is the best close since the entry. -/
structure Position where
  side : Side
  entryPrice : Float
  entryTime : Instant
  entryIndex : Nat
  quantity : Float
  margin : Float
  entryFee : Float
  waterMark : Float
  trailingArmed : Bool

namespace Position

/-- The take-profit level, if the percentage asks for one. -/
def targetLevel? (p : Position) (pct : Float) : Option Float :=
  if 0 < pct then some (targetPrice p.side p.entryPrice pct) else none

/-- The stop-loss level, if the percentage asks for one. -/
def stopLevel? (p : Position) (pct : Float) : Option Float :=
  if 0 < pct then some (stopPrice p.side p.entryPrice pct) else none

/-- The profit at a price before fees. -/
def profitAt (p : Position) (price : Float) : Float :=
  p.side.sign * (price - p.entryPrice) * p.quantity

/-- The position as it is reported when no candle is left. -/
def report (p : Position) (mark : Float) : OpenTrade where
  side := p.side
  entryTime := p.entryTime
  entryPrice := p.entryPrice
  entryIndex := p.entryIndex
  quantity := p.quantity
  entryFee := p.entryFee
  unrealizedPnlUsd := p.profitAt mark

/-- The position as a document. -/
def toDocument (p : Position) : Document :=
  .table [("side", .text p.side.name), ("entry_price", .real p.entryPrice),
    ("entry_time", p.entryTime.toDocument), ("entry_index", .integer p.entryIndex),
    ("quantity", .real p.quantity), ("margin", .real p.margin), ("entry_fee", .real p.entryFee),
    ("water_mark", .real p.waterMark), ("trailing_armed", .bool p.trailingArmed)]

end Position
end Backtest
