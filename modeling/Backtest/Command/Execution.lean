import Backtest.Command.Output
import Backtest.Market.Loader
import Backtest.Params.Assignment
import Backtest.Report.Artifacts
import Backtest.Report.Markdown
import Backtest.WalkForward.Run
import Backtest.WalkForward.Source

/-!
# Commands

What each command does with the files it reads: the text it prints, the files it leaves, and how it
ends. Reading a file is a function from its path, so all of this is without effects.
-/
namespace Backtest

/-- How a command ends. -/
inductive Ending where
  | success
  /-- The command line could not be understood. -/
  | usage
  /-- The command gave up with a message. -/
  | failure (message : String)
  /-- A date left the calendar. -/
  | breakdown
deriving Repr, DecidableEq

/-- The number that a command ends with. -/
def Ending.code : Ending → Nat
  | success => 0
  | failure _ => 1
  | usage => 2
  | breakdown => 101

/-- What a command leaves behind. -/
structure CommandOutcome where
  printed : String := ""
  artifacts : Option Report.Artifacts := none
  ending : Ending := .success

namespace Command

/-- The bytes of a file, if there is one. -/
abbrev FileReader := String → Option (List UInt8)

/-- The outcome of a command that gave up before it printed anything. -/
def gaveUp (message : String) : CommandOutcome := { ending := .failure message }

/-- The directories on the way to a path, and the path itself. -/
def pathsTo (path : String) : List String :=
  let cs := path.toList
  ((List.range (cs.length + 1)).filter fun i => (cs.drop i).head?.all (· == '/')).map fun i =>
    String.ofList (cs.take i)

/-- The artifacts of a result, unless a file stands in the way of their directory. -/
def saveTo (read : FileReader) (root : String) (r : RunResult) :
    Except Report.SaveError Report.Artifacts :=
  match Report.Artifacts.ofResult root r with
  | .error e => .error e
  | .ok a =>
    if (pathsTo a.directory).any fun p => (read p).isSome then .error (.directory a.directory)
    else .ok a

/-- Prints the windows of a request. -/
def executeWindows (read : FileReader) (path : String) : CommandOutcome :=
  match Request.load path (read path) with
  | .error _ => gaveUp ("loading " ++ path)
  | .ok request =>
    match request.windows with
    | .error .outOfCalendar => { ending := .breakdown }
    | .error e => gaveUp e.message
    | .ok all => { printed := windowsText all request.windowType }

/-- Runs a request that is in order on its candles. -/
def executeRequest (read : FileReader) (o : RunOptions) (request : Request)
    (series : CandleSeries) : CommandOutcome :=
  match (WalkForward.run request series false).outcome with
  | .error (.schedule .outOfCalendar) => gaveUp WalkForward.brokenOffMessage
  | .error e => gaveUp e.message
  | .ok result =>
    let printed := if o.report then linesText [Report.markdown result] else summaryText result
    if o.save then
      match saveTo read o.outputDir result with
      | .error e => { printed, ending := .failure e.message }
      | .ok a =>
        { printed := printed ++ linesText ["Artifacts saved to: " ++ a.directory]
          artifacts := some a }
    else { printed }

/-- Runs a walk-forward request. -/
def executeRun (read : FileReader) (o : RunOptions) : CommandOutcome :=
  match Request.load o.config (read o.config) with
  | .error _ => gaveUp ("loading " ++ o.config)
  | .ok request =>
    let request := { request with threads := o.threads.getD request.threads }
    match request.validate with
    | .error e => gaveUp e.message
    | .ok _ =>
      match CandleSeries.load o.data (read o.data) with
      | .error e => gaveUp e.message
      | .ok series => executeRequest read o request series

/-- The parameter set of assignments; of two with one name the later counts. -/
def readParams (texts : List String) : Except String ParamSet :=
  match texts.find? fun t => (readAssignment? t).isNone with
  | some t => .error ("expected NAME=VALUE, got `" ++ t ++ "`")
  | none => .ok (.ofList (texts.filterMap readAssignment?))

/-- The series that a replay runs on: the whole file, or the part within a range. -/
def readSeries (read : FileReader) (o : BacktestOptions) : Except LoadError CandleSeries := do
  let series ← CandleSeries.load o.data (read o.data)
  if o.start.isNone && o.stop.isNone then return series
  else series.within (o.start.getD .earliest) (o.stop.getD .latest)

/-- Replays one set of parameters. -/
def executeBacktest (read : FileReader) (o : BacktestOptions) : CommandOutcome :=
  let settings : AccountSettings :=
    { initialBalance := o.initialBalance, leverage := o.leverage, feeRate := o.feeRate }
  match readParams o.params with
  | .error message => gaveUp message
  | .ok set =>
    match CrossoverParams.ofSet set with
    | .error e => gaveUp e.message
    | .ok params =>
      match readSeries read o with
      | .error e => gaveUp e.message
      | .ok series =>
        match Simulation.run series.candles params settings with
        | .error e => gaveUp e.message
        | .ok r =>
          { printed := backtestText params series
              (Metrics.compute r.trades r.equity settings.initialBalance {}) r.openTrade }

/-- Executes a command. -/
def execute (read : FileReader) : Command → CommandOutcome
  | run o => executeRun read o
  | windows path => executeWindows read path
  | backtest o => executeBacktest read o
  | help topic => { printed := topic.text }

/-- Executes a command line. -/
def executeLine (read : FileReader) (args : List String) : CommandOutcome :=
  match ofArguments? args with
  | some command => command.execute read
  | none => { ending := .usage }

/-- The files that a command looks at. -/
def paths : Command → List String
  | run o => [o.config, o.data] ++ pathsTo o.outputDir
  | windows path => [path]
  | backtest o => [o.data]
  | help _ => []

end Command
end Backtest
