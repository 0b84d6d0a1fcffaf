import Backtest.WalkForward.Result

/-!
# Summaries

Puts the windows of a run together: the test trades back to back, the balance they make, and how the
test objectives compare with those of the training.
-/
namespace Backtest.RunSummary

/-- The windows where a candidate qualified. -/
def qualifying (windows : List WindowRecord) : List WindowRecord :=
  windows.filter fun w => !w.disqualified

/-- The test trades of all windows in order. -/
def testTrades (windows : List WindowRecord) : List Trade := windows.flatMap (·.testTrades)

/-- The balances after trades that start from a balance. -/
def balancesFrom : Float → List Trade → List BalancePoint
  | _, [] => []
  | balance, t :: rest =>
    ⟨t.exitTime, balance + t.pnlUsd⟩ :: balancesFrom (balance + t.pnlUsd) rest

/-- A point at the start of the first test, then one for each test trade. -/
def stitchedEquity (windows : List WindowRecord) (initial : Float) : List BalancePoint :=
  match windows with
  | [] => []
  | first :: _ =>
    ⟨first.window.testStart, initial⟩ :: balancesFrom initial (testTrades windows)

/-- The mean training objective below which a ratio says nothing. -/
def lowTrainObjective : Float := 0.1

/-- How the mean test objective compares with that of the training. -/
def degradation (train test : Float) : Option Float × Degradation :=
  if train < 0 then (none, .negativeTrainObjective)
  else if train < lowTrainObjective then (some (test - train), .lowTrainObjective)
  else if test < 0 then (some 0, .failedTest)
  else (some (test / train), .normal)

/-- The risk that a comparison shows. Without a usable ratio it is that of the share of windows on
different sides of neutral. -/
def risk (ratio : Option Float) (flag : Degradation) (overfit qualifying : Nat) :
    Option RiskLevel :=
  match flag with
  | .noQualifyingWindows => none
  | .normal => ratio.map fun r => .ofDrop (1 - r)
  | .failedTest => ratio.map fun r => .ofDrop (1 - r)
  | .lowTrainObjective => some (.ofDrop (Float.ofNat overfit / Float.ofNat qualifying))
  | .negativeTrainObjective => some (.ofDrop (Float.ofNat overfit / Float.ofNat qualifying))

/-- The summary of windows. The figures of all trades use the standard coefficients of the robust
score. -/
def ofWindows (windows : List WindowRecord) (objective : Objective) (initial : Float) :
    RunSummary :=
  let good := qualifying windows
  let equity := stitchedEquity windows initial
  let overfit := good.countP (·.changesSign objective)
  let train := Statistics.mean (good.filterMap (·.trainObjective))
  let test := Statistics.mean (good.filterMap (·.testObjective))
  let (ratio, flag) :=
    if good.isEmpty then (none, Degradation.noQualifyingWindows) else degradation train test
  { qualifyingWindows := good.length
    disqualifiedWindows := windows.length - good.length
    testStats := .ofMetrics (good.map (·.testMetrics))
    overallMetrics := .compute (testTrades windows) equity initial {}
    equity
    overfitWindows := overfit
    meanTrainObjective := train
    meanTestObjective := test
    degradationRatio := ratio
    degradationFlag := flag
    overfittingRisk := risk ratio flag overfit good.length }

end Backtest.RunSummary
