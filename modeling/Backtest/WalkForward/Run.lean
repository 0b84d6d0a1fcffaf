import Backtest.Market.Series
import Backtest.WalkForward.Summary

/-!
# Walk-forward runs

Searches the training part of each window and replays the best candidate on its test part, window
after window. A window where nothing qualifies is recorded and the run goes on. A run that was
cancelled keeps the windows it has. The events of a run end with its status, except when its dates
leave the calendar: then the run ends without a word.
-/
namespace Backtest

/-- Why a run failed. -/
inductive RunError where
  | request (error : RequestError)
  | schedule (error : ScheduleError)
  | search (window : Nat) (error : SearchError)
  | selectedParams (window : Nat) (error : ParamError)
  | testSimulation (window : Nat) (error : SimulationError)

/-- The wording of a failure. -/
def RunError.message : RunError → String
  | request _ => "invalid configuration"
  | schedule _ => "window scheduling failed"
  | search window _ => s!"parameter search failed in window {window}"
  | selectedParams window _ => s!"selected parameters are invalid in window {window}"
  | testSimulation window _ => s!"test simulation failed in window {window}"

namespace WalkForward

/-- The wording of a run that ended without a word. -/
def brokenOffMessage : String := "walk-forward worker panicked"

/-- The record of a window where no candidate qualified. -/
def idleWindow (initial : Float) (window : Window) (outcome : SearchFindings) : WindowRecord where
  window := window
  bestParams := none
  trainMetrics := none
  testMetrics := .idle initial
  trainObjective := none
  testObjective := none
  testTrades := []
  testTradeCount := 0
  disqualified := true
  disqualifyReason := some outcome.emptyHandedText
  candidatesEvaluated := outcome.evaluated
  candidatesDisqualified := outcome.disqualified.length
  candidatesSkipped := outcome.skipped

/-- The record of a window whose best candidate was replayed on the test candles. -/
def testedWindow (request : Request) (window : Window) (outcome : SearchFindings)
    (best : Candidate) (replay : Replay) : WindowRecord :=
  let metrics := Metrics.compute replay.trades replay.equity request.simulation.initialBalance
    request.robustScore
  { window
    bestParams := some best.params
    trainMetrics := some best.metrics
    testMetrics := metrics
    trainObjective := some best.objective
    testObjective := some (request.objective.extract metrics)
    testTrades := replay.trades
    testTradeCount := replay.trades.length
    disqualified := false
    disqualifyReason := none
    candidatesEvaluated := outcome.evaluated
    candidatesDisqualified := outcome.disqualified.length
    candidatesSkipped := outcome.skipped }

/-- Runs one window on its training and test candles; nothing when the run was cancelled. -/
def windowRecord (request : Request) (space : SearchSpace) (window : Window) (cancelled : Bool)
    (pool : WorkerPool) (train test : List Candle) : Except RunError (Option WindowRecord) :=
  match Search.run train space request.baseParams request.searchPlan window.index cancelled pool
  with
  | .error .cancelled => .ok none
  | .error e => .error (.search window.index e)
  | .ok outcome =>
    match outcome.best? with
    | none => .ok (some (idleWindow request.simulation.initialBalance window outcome))
    | some best =>
      match CrossoverParams.ofSet best.params with
      | .error e => .error (.selectedParams window.index e)
      | .ok typed =>
        match Simulation.run test typed request.simulation with
        | .error e => .error (.testSimulation window.index e)
        | .ok replay => .ok (some (testedWindow request window outcome best replay))

/-- What became of the windows of a run: the events, the records, and whether all of them ran or
why not. -/
structure WindowsOutcome where
  events : List RunEvent
  windows : List WindowRecord
  ending : Except RunError RunStatus

/-- Runs windows in order until one fails or the run was cancelled; `completed` of them are done,
and by this number each has its own workers. -/
def runWindows (request : Request) (series : CandleSeries) (space : SearchSpace) (cancelled : Bool)
    (pools : Nat → WorkerPool) (total : Nat) : Nat → List Window → WindowsOutcome
  | _, [] => ⟨[], [], .ok .completed⟩
  | completed, window :: rest =>
    if cancelled then ⟨[], [], .ok .cancelled⟩
    else
      match windowRecord request space window cancelled (pools completed)
        (series.slice window.trainStart window.trainEnd)
        (series.slice window.testStart window.testEnd) with
      | .error e => ⟨[], [], .error e⟩
      | .ok none => ⟨[], [], .ok .cancelled⟩
      | .ok (some result) =>
        let after := runWindows request series space cancelled pools total (completed + 1) rest
        ⟨.windowCompleted window.index (completed + 1) total result.disqualified :: after.events,
          result :: after.windows, after.ending⟩

/-- A record without its trades. -/
def withoutTrades (w : WindowRecord) : WindowRecord := { w with testTrades := [] }

/-- The result of windows that ran. The summary is made of the records with their trades. -/
def result (request : Request) (total : Nat) (status : RunStatus)
    (windows : List WindowRecord) : RunResult where
  schemaVersion := schemaVersion
  symbol := request.symbol
  objective := request.objective
  configFingerprint := request.fingerprint
  status := status
  totalWindows := total
  windows := if request.includeTrades then windows else windows.map withoutTrades
  summary := .ofWindows windows request.objective request.simulation.initialBalance

/-- A run: its events in order, and its result. -/
structure Report where
  events : List RunEvent
  outcome : Except RunError RunResult

/-- The report of a run that fails before its first window. -/
def failedReport (e : RunError) : Report := ⟨[.finished .failed], .error e⟩

/-- Runs a request on a series. -/
def run (request : Request) (series : CandleSeries) (cancelled : Bool)
    (pools : Nat → WorkerPool := fun _ => .ready) : Report :=
  match request.checkedSpace with
  | .error e => failedReport (.request e)
  | .ok space =>
    match request.windows with
    | .error .outOfCalendar => ⟨[], .error (.schedule .outOfCalendar)⟩
    | .error e => failedReport (.schedule e)
    | .ok windows =>
      let total := windows.length
      let done := runWindows request series space cancelled pools total 0 windows
      match done.ending with
      | .error e => ⟨.started total :: done.events ++ [.finished .failed], .error e⟩
      | .ok status =>
        ⟨.started total :: done.events ++ [.finished status],
          .ok (result request total status done.windows)⟩

end WalkForward
end Backtest
