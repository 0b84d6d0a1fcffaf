import Backtest.Simulation.Step

/-!
# Simulations

Replays one set of parameters over candles. The run is a fold of single steps; what it reports is
read off the trades and the last state.
-/
namespace Backtest

/-- The result of a replay. The equity curve starts with the first candle and has a point for each
closed trade. -/
structure Replay where
  trades : List Trade
  equity : List BalancePoint
  openTrade : Option OpenTrade
  finalBalance : Float

namespace Simulation

/-- The state after candles that start at `index`, of which the last is the end of the data, and the
trades closed on them with the balance after each. -/
def replay (params : CrossoverParams) (settings : AccountSettings) :
    Nat → SimulationState → List Candle → SimulationState × List (Trade × Float)
  | _, state, [] => (state, [])
  | index, state, candle :: rest =>
    let (next, outcome) := state.step candle ⟨params, settings, index, rest.isEmpty⟩
    let (last, trades) := replay params settings (index + 1) next rest
    match outcome.closed with
    | some trade => (last, (trade, next.account.balance) :: trades)
    | none => (last, trades)

/-- The first candle with a price that is none. -/
def firstInvalid (index : Nat) : List Candle → Option SimulationError
  | [] => none
  | c :: rest =>
    if c.isPriced then firstInvalid (index + 1) rest
    else some (.invalidPrice index c.openTime)

/-- The result of a replay that starts with the candle `first`. -/
def result (settings : AccountSettings) (first : Candle) (candles : List Candle)
    (last : SimulationState) (trades : List (Trade × Float)) : Replay where
  trades := trades.map (·.1)
  equity := ⟨first.openTime, settings.initialBalance⟩ ::
    trades.map fun t => ⟨t.1.exitTime, t.2⟩
  openTrade := last.account.position.map fun p =>
    p.report ((candles.getLast?.map (·.close)).getD first.close)
  finalBalance := last.account.balance

/-- Replays candles with parameters and settings that have been checked. Without a candle there is
no equity curve, and with fewer candles than the slow average needs there is no trade. -/
def runValid (candles : List Candle) (params : CrossoverParams) (settings : AccountSettings) :
    Replay :=
  match candles with
  | [] => ⟨[], [], none, settings.initialBalance⟩
  | first :: _ =>
    if candles.length < params.warmup then
      ⟨[], [⟨first.openTime, settings.initialBalance⟩], none, settings.initialBalance⟩
    else
      let (last, trades) := replay params settings 0 (.new params settings) candles
      result settings first candles last trades

/-- Checks the parameters, the settings and the prices, in this order, and replays. -/
def run (candles : List Candle) (params : CrossoverParams) (settings : AccountSettings) :
    Except SimulationError Replay :=
  match params.fault?, settings.fault?, firstInvalid 0 candles with
  | some e, _, _ => .error (.params e)
  | none, some f, _ => .error (.settings f)
  | none, none, some e => .error e
  | none, none, none => .ok (runValid candles params settings)

end Simulation
end Backtest
