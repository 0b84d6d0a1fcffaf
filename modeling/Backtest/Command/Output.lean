import Backtest.Command.Help
import Backtest.Market.Series
import Backtest.Report.Table

/-!
# Printed results

What the commands print: the windows of a request, the short summary of a walk-forward run, and the
figures of a single replay.
-/
namespace Backtest.Command

/-- A text filled up with blanks on the right. -/
def padRight (width : Nat) (s : String) : String :=
  s ++ String.ofList (List.replicate (width - s.length) ' ')

/-- A text filled up with blanks on the left. -/
def padLeft (width : Nat) (s : String) : String :=
  String.ofList (List.replicate (width - s.length) ' ') ++ s

/-- Date and time to the minute. -/
def minuteText (t : Instant) : String :=
  let s := t.secondOfDay.toNat
  String.ofList (Instant.dateText (Date.ofDays t.day) ++
    ' ' :: Instant.padded 2 (s / 3600) ++ ':' :: Instant.padded 2 (s / 60 % 60))

/-- A line of the table of windows. -/
def windowColumns (index : String) (times : List String) : String :=
  padLeft 4 index ++ "  " ++ " ".intercalate (times.map (padRight 20))

/-- The line of a window. -/
def windowLine (w : Window) : String :=
  windowColumns (toString w.index)
    ([w.trainStart, w.trainEnd, w.testStart, w.testEnd].map minuteText)

/-- The windows of a request. -/
def windowsText (windows : List Window) (type : TrainingMode) : String :=
  if windows.isEmpty then
    linesText ["No windows: range is shorter than one training plus one test period."]
  else
    linesText (windowColumns "#" ["train_start", "train_end", "test_start", "test_end"] ::
      windows.map windowLine ++ [toString windows.length ++ " windows (" ++ type.name ++ ")"])

/-- A label and a value in two columns. -/
def labelled (label value : String) : String := padRight 16 (label ++ ":") ++ value

/-- A percentage with fixed places. -/
def percentText (places : Nat) (x : Float) : String := FixedPlaces.write places x ++ "%"

/-- The profit factor, if there is one. -/
def profitFactorText (m : Metrics) : String := (m.profitFactor.map (FixedPlaces.write 2)).getD "n/a"

/-- The short summary of a walk-forward run. -/
def summaryText (r : RunResult) : String :=
  let s := r.summary
  let m := s.overallMetrics
  linesText
    (["", "=== Walk-Forward Result ===", labelled "Symbol" r.symbol,
      labelled "Strategy" strategyName, labelled "Metric" r.objective.name,
      labelled "Status" r.status.name,
      labelled "Windows" (toString r.windows.length ++ "/" ++ toString r.totalWindows ++ " (" ++
        toString s.disqualifiedWindows ++ " disqualified)"),
      "", "--- Out-of-sample ---", labelled "Total Return" (percentText 2 m.totalReturnPct),
      labelled "Trades" (toString m.totalTrades),
      labelled "Win Rate" (percentText 1 (m.winRate * 100)),
      labelled "Profit Factor" (profitFactorText m),
      labelled "Max Drawdown" (percentText 2 m.maxDrawdownPct),
      labelled "Sharpe-like" (FixedPlaces.write 3 m.sharpeLikeRatio),
      "", "--- Overfitting ---",
      labelled "Sign flips" (toString s.overfitWindows ++ "/" ++ toString s.qualifyingWindows),
      labelled "Degradation" ((s.degradationRatio.map (FixedPlaces.write 3)).getD "n/a" ++ " (" ++
        s.degradationFlag.title ++ ")")] ++
      match s.overfittingRisk with
      | some risk => [labelled "Risk" risk.title]
      | none => [])

/-- A position that is still open. -/
def openLine (t : OpenTrade) : String :=
  "Open " ++ t.side.name ++ " from " ++ FixedPlaces.write 4 t.entryPrice ++ " (unrealized " ++
    FixedPlaces.write 2 t.unrealizedPnlUsd ++ ")"

/-- The figures of a single replay. -/
def backtestText (params : CrossoverParams) (series : CandleSeries) (m : Metrics)
    (openTrade : Option OpenTrade) : String :=
  linesText
    (["", "=== Backtest Result ===", labelled "Params" (ParamSet.display params.toSet),
      labelled "Period" (series.firstOpening.messageText ++ " to " ++
        series.lastOpening.messageText ++ " (" ++ toString series.candles.length ++ " candles)"),
      labelled "Trades" (toString m.totalTrades),
      labelled "Final Balance" (FixedPlaces.write 2 m.finalBalance),
      labelled "Total Return" (percentText 2 m.totalReturnPct),
      labelled "Win Rate" (percentText 1 (m.winRate * 100)),
      labelled "Profit Factor" (profitFactorText m),
      labelled "Max Drawdown" (percentText 2 m.maxDrawdownPct),
      labelled "Sharpe-like" (FixedPlaces.write 3 m.sharpeLikeRatio),
      labelled "Robust Score" (FixedPlaces.write 3 m.robustScore)] ++
      match openTrade with
      | some t => [openLine t]
      | none => [])

end Backtest.Command
