import Backtest.Document.Record
import Backtest.Performance.Objective
import Backtest.Schedule
import Backtest.Params.Set
import Backtest.WalkForward.Request
import Backtest.WalkForward.Progress

/-!
# Results

What a walk-forward run leaves behind: a record of each window and a summary of all of them, each
with its document form.
-/
namespace Backtest

namespace Window

/-- The window as a document. -/
def toDocument (w : Window) : Document :=
  .table [("index", .integer w.index), ("train_start", w.trainStart.toDocument),
    ("train_end", w.trainEnd.toDocument), ("test_start", w.testStart.toDocument),
    ("test_end", w.testEnd.toDocument)]

/-- The window of a document. -/
def ofDocument? (d : Document) : Option Window := do
  let r ← Record.ofDocument? ["index", "train_start", "train_end", "test_start", "test_end"] d
  some {
    index := ← r.required "index" Document.count?
    trainStart := ← r.required "train_start" Instant.ofDocument?
    trainEnd := ← r.required "train_end" Instant.ofDocument?
    testStart := ← r.required "test_start" Instant.ofDocument?
    testEnd := ← r.required "test_end" Instant.ofDocument? }

end Window

/-- An optional value as a document. -/
def optionalDocument {α : Type} (encode : α → Document) : Option α → Document
  | none => .null
  | some a => encode a

/-- The record of one window. A window where no candidate qualified has a reason instead of
parameters, training figures and objectives. -/
structure WindowRecord where
  window : Window
  bestParams : Option ParamSet
  trainMetrics : Option Metrics
  testMetrics : Metrics
  trainObjective : Option Float
  testObjective : Option Float
  testTrades : List Trade
  testTradeCount : Nat
  disqualified : Bool
  disqualifyReason : Option String
  candidatesEvaluated : Nat
  candidatesDisqualified : Nat
  candidatesSkipped : Nat

namespace WindowRecord

/-- Whether training and test lie on different sides of neutral. -/
def changesSign (w : WindowRecord) (o : Objective) : Bool :=
  match w.trainObjective, w.testObjective with
  | some train, some test => o.sign train != o.sign test
  | _, _ => false

/-- The record as a document. -/
def toDocument (w : WindowRecord) : Document :=
  .table [("window", w.window.toDocument),
    ("best_params", optionalDocument ParamSet.toDocument w.bestParams),
    ("train_metrics", optionalDocument Metrics.toDocument w.trainMetrics),
    ("test_metrics", w.testMetrics.toDocument),
    ("train_objective", optionalDocument .real w.trainObjective),
    ("test_objective", optionalDocument .real w.testObjective),
    ("test_trades", .list (w.testTrades.map Trade.toDocument)),
    ("test_trade_count", .integer w.testTradeCount), ("disqualified", .bool w.disqualified),
    ("disqualify_reason", optionalDocument .text w.disqualifyReason),
    ("candidates_evaluated", .integer w.candidatesEvaluated),
    ("candidates_disqualified", .integer w.candidatesDisqualified),
    ("candidates_skipped", .integer w.candidatesSkipped)]

/-- The fields of a record in order. -/
def fieldNames : List String :=
  ["window", "best_params", "train_metrics", "test_metrics", "train_objective", "test_objective",
    "test_trades", "test_trade_count", "disqualified", "disqualify_reason", "candidates_evaluated",
    "candidates_disqualified", "candidates_skipped"]

/-- The record of a document. -/
def ofDocument? (d : Document) : Option WindowRecord := do
  let r ← Record.ofDocument? fieldNames d
  some {
    window := ← r.required "window" Window.ofDocument?
    bestParams := ← r.optional "best_params" ParamSet.ofDocument?
    trainMetrics := ← r.optional "train_metrics" Metrics.ofDocument?
    testMetrics := ← r.required "test_metrics" Metrics.ofDocument?
    trainObjective := ← r.optional "train_objective" Document.real?
    testObjective := ← r.optional "test_objective" Document.real?
    testTrades := ← r.required "test_trades" (Document.listOf? Trade.ofDocument?)
    testTradeCount := ← r.required "test_trade_count" Document.count?
    disqualified := ← r.required "disqualified" Document.bool?
    disqualifyReason := ← r.optional "disqualify_reason" Document.text?
    candidatesEvaluated := ← r.required "candidates_evaluated" Document.count?
    candidatesDisqualified := ← r.required "candidates_disqualified" Document.count?
    candidatesSkipped := ← r.required "candidates_skipped" Document.count? }

end WindowRecord

/-- Mean and median of a figure. -/
structure MeanAndMedian where
  mean : Float
  median : Float

namespace MeanAndMedian

/-- Mean and median of a list. -/
def ofList (xs : List Float) : MeanAndMedian := ⟨Statistics.mean xs, Statistics.median xs⟩

/-- The pair as a document. -/
def toDocument (s : MeanAndMedian) : Document :=
  .table [("mean", .real s.mean), ("median", .real s.median)]

/-- The pair of a document. -/
def ofDocument? (d : Document) : Option MeanAndMedian := do
  let r ← Record.ofDocument? ["mean", "median"] d
  some ⟨← r.required "mean" Document.real?, ← r.required "median" Document.real?⟩

end MeanAndMedian

/-- Mean and median of the test figures over the qualifying windows. -/
structure TestStats where
  totalReturnPct : MeanAndMedian
  winRate : MeanAndMedian
  maxDrawdownPct : MeanAndMedian
  sharpeLikeRatio : MeanAndMedian
  robustScore : MeanAndMedian
  totalTrades : MeanAndMedian

namespace TestStats

/-- The statistics of a list of figures. -/
def ofMetrics (ms : List Metrics) : TestStats where
  totalReturnPct := .ofList (ms.map (·.totalReturnPct))
  winRate := .ofList (ms.map (·.winRate))
  maxDrawdownPct := .ofList (ms.map (·.maxDrawdownPct))
  sharpeLikeRatio := .ofList (ms.map (·.sharpeLikeRatio))
  robustScore := .ofList (ms.map (·.robustScore))
  totalTrades := .ofList (ms.map fun m => Float.ofNat m.totalTrades)

/-- The statistics as a document. -/
def toDocument (s : TestStats) : Document :=
  .table [("total_return_pct", s.totalReturnPct.toDocument), ("win_rate", s.winRate.toDocument),
    ("max_drawdown_pct", s.maxDrawdownPct.toDocument),
    ("sharpe_like_ratio", s.sharpeLikeRatio.toDocument),
    ("robust_score", s.robustScore.toDocument), ("total_trades", s.totalTrades.toDocument)]

/-- The statistics of a document. -/
def ofDocument? (d : Document) : Option TestStats := do
  let r ← Record.ofDocument? ["total_return_pct", "win_rate", "max_drawdown_pct",
    "sharpe_like_ratio", "robust_score", "total_trades"] d
  some {
    totalReturnPct := ← r.required "total_return_pct" MeanAndMedian.ofDocument?
    winRate := ← r.required "win_rate" MeanAndMedian.ofDocument?
    maxDrawdownPct := ← r.required "max_drawdown_pct" MeanAndMedian.ofDocument?
    sharpeLikeRatio := ← r.required "sharpe_like_ratio" MeanAndMedian.ofDocument?
    robustScore := ← r.required "robust_score" MeanAndMedian.ofDocument?
    totalTrades := ← r.required "total_trades" MeanAndMedian.ofDocument? }

end TestStats

/-- How training and test objectives were compared. -/
inductive Degradation where
  | normal
  | lowTrainObjective
  | negativeTrainObjective
  | failedTest
  | noQualifyingWindows
deriving Repr, DecidableEq

namespace Degradation

/-- All cases. -/
def all : List Degradation :=
  [normal, lowTrainObjective, negativeTrainObjective, failedTest, noQualifyingWindows]

/-- The name of a case in data. -/
def name : Degradation → String
  | normal => "normal"
  | lowTrainObjective => "low_train_objective"
  | negativeTrainObjective => "negative_train_objective"
  | failedTest => "failed_test"
  | noQualifyingWindows => "no_qualifying_windows"

/-- The name of a case in reports. -/
def title : Degradation → String
  | normal => "Normal"
  | lowTrainObjective => "LowTrainObjective"
  | negativeTrainObjective => "NegativeTrainObjective"
  | failedTest => "FailedTest"
  | noQualifyingWindows => "NoQualifyingWindows"

/-- The case with a name. -/
def ofName? (s : String) : Option Degradation := all.find? (·.name == s)

end Degradation

/-- How much of the training result the test lost. -/
inductive RiskLevel where
  | low
  | medium
  | high
  | severe
deriving Repr, DecidableEq

namespace RiskLevel

/-- All levels. -/
def all : List RiskLevel := [low, medium, high, severe]

/-- The name of a level in data. -/
def name : RiskLevel → String
  | low => "low"
  | medium => "medium"
  | high => "high"
  | severe => "severe"

/-- The name of a level in reports. -/
def title : RiskLevel → String
  | low => "Low"
  | medium => "Medium"
  | high => "High"
  | severe => "Severe"

/-- The level with a name. -/
def ofName? (s : String) : Option RiskLevel := all.find? (·.name == s)

/-- The level of a relative drop. -/
def ofDrop (drop : Float) : RiskLevel :=
  if drop ≤ 0.05 then low
  else if drop ≤ 0.1 then medium
  else if drop ≤ 0.2 then high
  else severe

end RiskLevel

/-- The summary of all windows. -/
structure RunSummary where
  qualifyingWindows : Nat
  disqualifiedWindows : Nat
  testStats : TestStats
  overallMetrics : Metrics
  equity : List BalancePoint
  overfitWindows : Nat
  meanTrainObjective : Float
  meanTestObjective : Float
  degradationRatio : Option Float
  degradationFlag : Degradation
  overfittingRisk : Option RiskLevel

namespace RunSummary

/-- The summary as a document. -/
def toDocument (s : RunSummary) : Document :=
  .table [("qualifying_windows", .integer s.qualifyingWindows),
    ("disqualified_windows", .integer s.disqualifiedWindows),
    ("test_stats", s.testStats.toDocument), ("overall_metrics", s.overallMetrics.toDocument),
    ("equity", .list (s.equity.map BalancePoint.toDocument)),
    ("overfit_windows", .integer s.overfitWindows),
    ("mean_train_objective", .real s.meanTrainObjective),
    ("mean_test_objective", .real s.meanTestObjective),
    ("degradation_ratio", optionalDocument .real s.degradationRatio),
    ("degradation_flag", .text s.degradationFlag.name),
    ("overfitting_risk", optionalDocument (fun r => .text (RiskLevel.name r)) s.overfittingRisk)]

/-- The fields of a summary in order. -/
def fieldNames : List String :=
  ["qualifying_windows", "disqualified_windows", "test_stats", "overall_metrics", "equity",
    "overfit_windows", "mean_train_objective", "mean_test_objective", "degradation_ratio",
    "degradation_flag", "overfitting_risk"]

/-- The summary of a document. -/
def ofDocument? (d : Document) : Option RunSummary := do
  let r ← Record.ofDocument? fieldNames d
  some {
    qualifyingWindows := ← r.required "qualifying_windows" Document.count?
    disqualifiedWindows := ← r.required "disqualified_windows" Document.count?
    testStats := ← r.required "test_stats" TestStats.ofDocument?
    overallMetrics := ← r.required "overall_metrics" Metrics.ofDocument?
    equity := ← r.required "equity" (Document.listOf? BalancePoint.ofDocument?)
    overfitWindows := ← r.required "overfit_windows" Document.count?
    meanTrainObjective := ← r.required "mean_train_objective" Document.real?
    meanTestObjective := ← r.required "mean_test_objective" Document.real?
    degradationRatio := ← r.optional "degradation_ratio" Document.real?
    degradationFlag := ← r.required "degradation_flag" (Document.choice? Degradation.ofName?)
    overfittingRisk := ← r.optional "overfitting_risk" (Document.choice? RiskLevel.ofName?) }

end RunSummary

/-- The version of the document form of results. -/
def schemaVersion : Nat := 1

/-- The result of a run. -/
structure RunResult where
  schemaVersion : Nat
  symbol : String
  objective : Objective
  configFingerprint : String
  status : RunStatus
  totalWindows : Nat
  windows : List WindowRecord
  summary : RunSummary

namespace RunResult

/-- The result as a document. -/
def toDocument (r : RunResult) : Document :=
  .table [("schema_version", .integer r.schemaVersion), ("symbol", .text r.symbol),
    ("strategy", .text strategyName), ("metric", .text r.objective.name),
    ("config_fingerprint", .text r.configFingerprint), ("status", .text r.status.name),
    ("total_windows", .integer r.totalWindows),
    ("windows", .list (r.windows.map WindowRecord.toDocument)),
    ("summary", r.summary.toDocument)]

/-- The fields of a result in order. -/
def fieldNames : List String :=
  ["schema_version", "symbol", "strategy", "metric", "config_fingerprint", "status",
    "total_windows", "windows", "summary"]

/-- The result of a document. -/
def ofDocument? (d : Document) : Option RunResult := do
  let r ← Record.ofDocument? fieldNames d
  r.required "strategy" (Document.choice? Request.strategy?)
  some {
    schemaVersion := ← r.required "schema_version" Document.word?
    symbol := ← r.required "symbol" Document.text?
    objective := ← r.required "metric" (Document.choice? Objective.ofName?)
    configFingerprint := ← r.required "config_fingerprint" Document.text?
    status := ← r.required "status" (Document.choice? RunStatus.ofName?)
    totalWindows := ← r.required "total_windows" Document.count?
    windows := ← r.required "windows" (Document.listOf? WindowRecord.ofDocument?)
    summary := ← r.required "summary" RunSummary.ofDocument? }

end RunResult
end Backtest
