import Backtest.Indicator.MovingAverage
import Backtest.Simulation.Settings
import Backtest.Strategy.Cross
import Backtest.Strategy.EntryFilter
import Backtest.Trading.Position

/-!
# One candle of a simulation

The state of a simulation and how one candle changes it. The averages take the close; the crossing
is that of the pair before and the new pair; an open position is checked for its exits, the first
that holds wins; an account without a position may open one on a crossing; the cooldown ticks on
candles without an exit. A position is never closed on the candle that opened it, and the candle
that closes one may open the next when there is no cooldown.
-/
namespace Backtest

/-- The state of the account: its position, the averages after the last candle, how many candles may
not open a position, and the realized balance. -/
structure Account where
  position : Option Position
  prevFast : Option Float
  prevSlow : Option Float
  cooldown : Nat
  balance : Float

namespace Account

/-- An account at its start. -/
def new (balance : Float) : Account := ⟨none, none, none, 0, balance⟩

/-- Whether no position is open. -/
def hasNoPosition (a : Account) : Bool := a.position.isNone

/-- The side of the open position. -/
def side? (a : Account) : Option Side := a.position.map (·.side)

end Account

/-- Everything a simulation carries from one candle to the next. -/
structure SimulationState where
  account : Account
  fast : MovingAverage
  slow : MovingAverage
  trend : Option Trend

/-- What one candle is judged by. -/
structure CandleContext where
  params : CrossoverParams
  settings : AccountSettings
  index : Nat
  isLast : Bool

/-- What happened on one candle. -/
structure CandleOutcome where
  fast : Option Float
  slow : Option Float
  cross : Option Cross
  closed : Option Trade
  opened : Option Side
  /-- The verdict of a filter that blocked an entry. -/
  filtered : Option EntryVerdict

namespace Position

/-- The position after a close has moved its water mark and armed its trailing stop. -/
def track (pos : Position) (close : Float) (params : CrossoverParams) : Position :=
  let mark := match pos.side with
    | .long => Binary64.max pos.waterMark close
    | .short => Binary64.min pos.waterMark close
  let gain := pos.side.sign * (close - pos.entryPrice) / pos.entryPrice
  { pos with
    waterMark := mark
    trailingArmed := pos.trailingArmed ||
      (params.trailingStopEnabled && decide (params.trailingActivationPct ≤ gain)) }

/-- Whether a close is at or beyond the stop-loss level. -/
def hitsStop (pos : Position) (close pct : Float) : Bool :=
  match pos.stopLevel? pct, pos.side with
  | some level, .long => close ≤ level
  | some level, .short => level ≤ close
  | none, _ => false

/-- Whether a close is at or beyond the take-profit level. -/
def hitsTarget (pos : Position) (close pct : Float) : Bool :=
  match pos.targetLevel? pct, pos.side with
  | some level, .long => level ≤ close
  | some level, .short => close ≤ level
  | none, _ => false

/-- Whether a close is as far from the water mark as an armed trailing stop allows. -/
def hitsTrailingStop (pos : Position) (close : Float) (params : CrossoverParams) : Bool :=
  params.trailingStopEnabled && pos.trailingArmed &&
    match pos.side with
    | .long => decide (close ≤ pos.waterMark * (1 - params.trailingDistancePct))
    | .short => decide (pos.waterMark * (1 + params.trailingDistancePct) ≤ close)

/-- Whether a crossing goes against the position. -/
def isReversedBy (pos : Position) (cross : Option Cross) : Bool :=
  match pos.side, cross with
  | .long, some .death => true
  | .short, some .golden => true
  | _, _ => false

/-- The first exit that holds. -/
def exitFor? (pos : Position) (close : Float) (cross : Option Cross) (ctx : CandleContext) :
    Option ExitReason :=
  if pos.hitsStop close ctx.params.stopLossPct then some .stopLoss
  else if pos.hitsTarget close ctx.params.takeProfitPct then some .takeProfit
  else if pos.hitsTrailingStop close ctx.params then some .trailingStop
  else if pos.isReversedBy cross then some .signalReversal
  else if ctx.isLast && ctx.settings.closeAtEnd then some .endOfData
  else none

/-- The position that a balance opens at a candle. -/
def enter (side : Side) (candle : Candle) (index : Nat) (balance : Float)
    (settings : AccountSettings) : Position :=
  let margin := balance * settings.positionFraction
  let notional := margin * settings.leverage
  { side
    entryPrice := candle.close
    entryTime := candle.openTime
    entryIndex := index
    quantity := notional / candle.close
    margin
    entryFee := notional * settings.feeRate
    waterMark := candle.close
    trailingArmed := false }

/-- How many candles a trade lasted. The count wraps at 64 bits when the exit has the lower
index. -/
def heldCandles (entry exit : Nat) : Nat :=
  if entry ≤ exit then exit - entry else exit + 18446744073709551616 - entry

/-- The trade of a position that is closed at a candle. -/
def close (pos : Position) (candle : Candle) (index : Nat) (reason : ExitReason)
    (settings : AccountSettings) : Trade :=
  let fee := pos.entryFee + candle.close * pos.quantity * settings.feeRate
  let pnl := pos.profitAt candle.close - fee
  { side := pos.side
    entryTime := pos.entryTime
    entryPrice := pos.entryPrice
    entryIndex := pos.entryIndex
    exitTime := candle.openTime
    exitPrice := candle.close
    exitIndex := index
    exitReason := reason
    quantity := pos.quantity
    fee
    pnlUsd := pnl
    pnlPct := if 0 < pos.margin then pnl / pos.margin * 100 else 0
    candlesHeld := heldCandles pos.entryIndex index }

end Position

namespace Account

/-- The account after its position was checked for exits, and the trade if one held. -/
def settle (a : Account) (candle : Candle) (cross : Option Cross) (ctx : CandleContext) :
    Account × Option Trade :=
  match a.position with
  | none => (a, none)
  | some pos =>
    let pos := pos.track candle.close ctx.params
    match pos.exitFor? candle.close cross ctx with
    | none => ({ a with position := some pos }, none)
    | some reason =>
      let trade := pos.close candle ctx.index reason ctx.settings
      ({ a with
          position := none
          balance := a.balance + trade.pnlUsd
          cooldown := ctx.params.cooldownCandles }, some trade)

/-- Whether a position may be opened: none is open, no cooldown runs, the candle leaves time to hold
it or it may stay open, and there is a balance. -/
def mayEnter (a : Account) (ctx : CandleContext) : Bool :=
  a.hasNoPosition && a.cooldown == 0 && (!ctx.isLast || !ctx.settings.closeAtEnd) &&
    decide (0 < a.balance)

/-- The side that a crossing asks for. -/
def signal (cross : Option Cross) (enableShort : Bool) : Option Side :=
  match cross with
  | some .golden => some .long
  | some .death => if enableShort then some .short else none
  | none => none

/-- The account after it opened a position where the crossing, its own state and the filters allow
it, with the side opened or the verdict that blocked it. -/
def tryEnter (a : Account) (candle : Candle) (cross : Option Cross) (fast slow : Option Float)
    (trend : Option Trend) (ctx : CandleContext) : Account × Option Side × Option EntryVerdict :=
  if a.mayEnter ctx then
    match signal cross ctx.params.enableShort, fast, slow with
    | some side, some f, some s =>
      match EntryFilter.verdict side f s candle.close ctx.params.minSeparationPct trend with
      | .passed =>
        ({ a with position := some (.enter side candle ctx.index a.balance ctx.settings) },
          some side, none)
      | verdict => (a, none, some verdict)
    | _, _, _ => (a, none, none)
  else (a, none, none)

/-- The account at the end of a candle: the cooldown has ticked unless there was an exit, and the
averages are those to compare the next candle with. -/
def endCandle (a : Account) (exited : Bool) (fast slow : Option Float) : Account :=
  { a with
    cooldown := if exited then a.cooldown else a.cooldown - 1
    prevFast := fast
    prevSlow := slow }

end Account

namespace SimulationState

/-- The state before the first candle. -/
def new (params : CrossoverParams) (settings : AccountSettings) : SimulationState where
  account := .new settings.initialBalance
  fast := .new params.averageKind params.fastPeriod
  slow := .new params.averageKind params.slowPeriod
  trend :=
    if params.trendEnabled then some (.new params.trendMultiplier params.trendPeriod) else none

/-- The state after one candle, and what happened on it. -/
def step (state : SimulationState) (candle : Candle) (ctx : CandleContext) :
    SimulationState × CandleOutcome :=
  let fast := state.fast.update candle.close
  let slow := state.slow.update candle.close
  let trend := state.trend.map (·.update candle.close)
  let cross := Cross.between state.account.prevFast state.account.prevSlow fast.value? slow.value?
  let (settled, closed) := state.account.settle candle cross ctx
  let (entered, opened, filtered) :=
    settled.tryEnter candle cross fast.value? slow.value? trend ctx
  let account := entered.endCandle closed.isSome fast.value? slow.value?
  (⟨account, fast, slow, trend⟩,
    ⟨fast.value?, slow.value?, cross, closed, opened, filtered⟩)

end SimulationState
end Backtest
