import Backtest.Report.Table

/-!
# Reports

A result as a Markdown text for people.
-/
namespace Backtest.Report

/-- A row of a table with two columns. -/
def pairRow (name value : String) : String := "| " ++ name ++ " | " ++ value ++ " |\n"

/-- The part that says what was run. -/
def headPart (r : RunResult) : String :=
  "# Walk-Forward Report\n\n" ++ pairRow "Field" "Value" ++ pairRow "---" "---" ++
    pairRow "Symbol" r.symbol ++ pairRow "Strategy" strategyName ++
    pairRow "Metric" r.objective.name ++ pairRow "Status" r.status.name ++
    pairRow "Windows" (toString r.windows.length ++ " of " ++ toString r.totalWindows ++ " (" ++
      toString r.summary.disqualifiedWindows ++ " disqualified)") ++ "\n"

/-- The part with the figures of all test trades. -/
def performancePart (s : RunSummary) : String :=
  let m := s.overallMetrics
  "## Out-of-Sample Performance\n\n" ++ pairRow "Metric" "Value" ++ pairRow "---" "---" ++
    pairRow "Total Return" (FixedPlaces.write 2 m.totalReturnPct ++ "%") ++
    pairRow "Trades" (toString m.totalTrades) ++
    pairRow "Win Rate" (FixedPlaces.write 1 (m.winRate * 100) ++ "%") ++
    pairRow "Profit Factor" ((m.profitFactor.map (FixedPlaces.write 2)).getD "n/a") ++
    pairRow "Max Drawdown" (FixedPlaces.write 2 m.maxDrawdownPct ++ "%") ++
    pairRow "Sharpe-like" (FixedPlaces.write 3 m.sharpeLikeRatio) ++
    pairRow "Median Window Return" (FixedPlaces.write 2 s.testStats.totalReturnPct.median ++ "%") ++
    "\n"

/-- The comparison of the objectives. -/
def degradationText (s : RunSummary) : String :=
  (s.degradationRatio.map (FixedPlaces.write 3)).getD "n/a" ++ " (" ++
    s.degradationFlag.title ++ ")"

/-- The part that compares training and test. -/
def overfittingPart (s : RunSummary) : String :=
  "## Overfitting\n\n- Sign flips (train vs test): " ++ toString s.overfitWindows ++ " of " ++
    toString s.qualifyingWindows ++ " windows\n- Mean objective: train " ++
    FixedPlaces.write 3 s.meanTrainObjective ++ ", test " ++
    FixedPlaces.write 3 s.meanTestObjective ++ "\n- Degradation: " ++ degradationText s ++ "\n" ++
    (match s.overfittingRisk with
      | some risk => "- Risk: **" ++ risk.title ++ "**\n"
      | none => "") ++ "\n"

/-- The date of an instant. -/
def dayText (t : Instant) : String := String.ofList (Instant.dateText (Date.ofDays t.day))

/-- The line of a window. -/
def windowLine (w : WindowRecord) : String :=
  let params := if w.disqualified then "*disqualified*" else paramsText w.bestParams
  "| " ++ " | ".intercalate
    [toString w.window.index, dayText w.window.testStart, params,
      optionalPlaces 3 w.trainObjective, optionalPlaces 3 w.testObjective,
      toString w.testTradeCount] ++ " |\n"

/-- The part that lists the windows. -/
def windowsPart (r : RunResult) : String :=
  "## Windows\n\n| # | Test Start | Params | Train | Test | Trades |\n" ++
    "| --- | --- | --- | --- | --- | --- |\n" ++ String.join (r.windows.map windowLine)

/-- The report of a result. -/
def markdown (r : RunResult) : String :=
  headPart r ++ performancePart r.summary ++ overfittingPart r.summary ++ windowsPart r

end Backtest.Report
