import Backtest.WalkForward.Result

/-!
# Tables

Results as comma-separated rows: one for each window, each test trade, or each point of the equity
curve. A field is quoted when it holds a quote, a comma or a line break, with its quotes doubled;
every row ends with a line feed.
-/
namespace Backtest.Report

/-- Whether a field has to be quoted. -/
def needsQuotes (field : List Char) : Bool :=
  field.any fun c => c == '"' || c == ',' || c == '\n' || c == '\r'

/-- The inside of a quoted field. -/
def doubleQuotes (field : List Char) : List Char :=
  field.flatMap fun c => if c = '"' then ['"', '"'] else [c]

/-- A field as it is written. -/
def fieldText (field : String) : List Char :=
  let cs := field.toList
  if needsQuotes cs then '"' :: doubleQuotes cs ++ ['"'] else cs

/-- A row as it is written. -/
def rowText (fields : List String) : List Char :=
  (List.intersperse [','] (fields.map fieldText)).flatten ++ ['\n']

/-- Rows as they are written. -/
def tableText (rows : List (List String)) : String := String.ofList (rows.flatMap rowText)

/-- An optional number with fixed places, or nothing. -/
def optionalPlaces (places : Nat) : Option Float → String
  | none => ""
  | some x => FixedPlaces.write places x

/-- A truth value. -/
def boolText (b : Bool) : String := if b then "true" else "false"

/-- The parameters of a window, or nothing. -/
def paramsText : Option ParamSet → String
  | none => ""
  | some s => ParamSet.display s

/-- The head of the table of windows. -/
def windowHead : List String :=
  ["window", "train_start", "train_end", "test_start", "test_end", "disqualified",
    "disqualify_reason", "best_params", "train_objective", "test_objective", "train_trades",
    "test_trades", "test_return_pct", "test_win_rate", "test_profit_factor",
    "test_max_drawdown_pct", "test_sharpe_like_ratio", "test_robust_score",
    "candidates_evaluated", "candidates_disqualified", "candidates_skipped"]

/-- The row of a window. -/
def windowRow (w : WindowRecord) : List String :=
  let m := w.testMetrics
  [toString w.window.index, w.window.trainStart.offsetText, w.window.trainEnd.offsetText,
    w.window.testStart.offsetText, w.window.testEnd.offsetText, boolText w.disqualified,
    w.disqualifyReason.getD "", paramsText w.bestParams, optionalPlaces 6 w.trainObjective,
    optionalPlaces 6 w.testObjective,
    (w.trainMetrics.map fun t => toString t.totalTrades).getD "", toString w.testTradeCount,
    FixedPlaces.write 4 m.totalReturnPct, FixedPlaces.write 4 m.winRate,
    optionalPlaces 4 m.profitFactor, FixedPlaces.write 4 m.maxDrawdownPct,
    FixedPlaces.write 6 m.sharpeLikeRatio, FixedPlaces.write 4 m.robustScore,
    toString w.candidatesEvaluated, toString w.candidatesDisqualified,
    toString w.candidatesSkipped]

/-- The table of windows. -/
def windowsTable (r : RunResult) : String := tableText (windowHead :: r.windows.map windowRow)

/-- The head of the table of trades. -/
def tradeHead : List String :=
  ["window", "side", "entry_time", "entry_price", "exit_time", "exit_price", "quantity",
    "exit_reason", "fee", "pnl_usd", "pnl_pct", "candles_held"]

/-- The row of a trade in a window. -/
def tradeRow (window : Nat) (t : Trade) : List String :=
  [toString window, t.side.name, t.entryTime.offsetText, FixedPlaces.write 6 t.entryPrice,
    t.exitTime.offsetText, FixedPlaces.write 6 t.exitPrice, FixedPlaces.write 8 t.quantity,
    t.exitReason.name, FixedPlaces.write 4 t.fee, FixedPlaces.write 4 t.pnlUsd,
    FixedPlaces.write 4 t.pnlPct, toString t.candlesHeld]

/-- The table of test trades. -/
def tradesTable (r : RunResult) : String :=
  tableText (tradeHead :: r.windows.flatMap fun w => w.testTrades.map (tradeRow w.window.index))

/-- The table of an equity curve. -/
def equityTable (points : List BalancePoint) : String :=
  tableText (["time", "balance"] ::
    points.map fun p => [p.time.offsetText, FixedPlaces.write 2 p.balance])

end Backtest.Report
