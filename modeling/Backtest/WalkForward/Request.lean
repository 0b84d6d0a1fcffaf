import Backtest.Schedule
import Backtest.Search.Run
import Backtest.Text.Blank

/-!
# Requests

Everything needed to repeat a walk-forward run, and the checks that need no candles. Their order
decides which of several faults is reported.
-/
namespace Backtest

/-- What is wrong with a request by itself. -/
inductive RequestFault where
  | emptySymbol
  | symbolPath (symbol : String)
  | endNotAfterStart (stop start : Instant)
  | notPositive (field : String)
  | unknownParameter (name : String)
  | gridTooLarge (count limit : Nat)
  | noSamples
  | drawdownLimit
  | lotteryLimit
deriving Repr, DecidableEq

/-- The name of the one strategy. -/
def strategyName : String := "ma_crossover"

/-- The wording of a fault. -/
def RequestFault.text : RequestFault → String
  | emptySymbol => "symbol must not be empty"
  | symbolPath symbol => s!"symbol `{symbol}` must not contain path separators"
  | endNotAfterStart stop start =>
    "end " ++ stop.messageText ++ " must be after start " ++ start.messageText
  | notPositive field => s!"{field} must be > 0"
  | unknownParameter name => s!"unknown parameter `{name}` for strategy {strategyName}"
  | gridTooLarge count limit =>
    s!"grid has {count} combinations, exceeding max_combinations = {limit}"
  | noSamples => "samples must be > 0"
  | drawdownLimit => "guardrails.max_drawdown_pct must be > 0"
  | lotteryLimit => "guardrails.lottery_trade_threshold must be > 0"

/-- Why a request was refused. -/
inductive RequestError where
  | read (path : String)
  | parse
  | invalid (fault : RequestFault)
  | space (error : AxisError)
  | simulation (error : SimulationError)

/-- The wording of a refusal. -/
def RequestError.message : RequestError → String
  | read path => "failed to read " ++ path
  | parse => "failed to parse config TOML"
  | invalid fault => "invalid config: " ++ fault.text
  | space error => error.message
  | simulation error => error.message

/-- A walk-forward request. -/
structure Request where
  symbol : String
  start : Instant
  stop : Instant
  trainingDays : Int
  testDays : Int
  stepDays : Int
  windowType : TrainingMode := .rolling
  baseParams : ParamSet := .empty
  paramRanges : NameMap ParamChoices := .empty
  objective : Objective := .standard
  method : SearchCoverage := .grid
  samples : Nat := 100
  seed : UInt64 := 42
  maxCombinations : Nat := standardGridLimit
  guardrails : Guardrails := {}
  simulation : AccountSettings := {}
  robustScore : RobustScore := {}
  threads : Nat := 0
  includeTrades : Bool := true

namespace Request

/-- A request with every optional field at its default, for two weeks of training and one of
test. -/
def new (symbol : String) (start stop : Instant) : Request :=
  { symbol, start, stop, trainingDays := 14, testDays := 7, stepDays := 7 }

/-- Whether a symbol could name a place outside its directory. -/
def hasPathParts (symbol : String) : Bool :=
  let cs := symbol.toList
  cs.contains '/' || cs.contains '\\' || (cs.zip cs.tail).contains ('.', '.')

/-- The first period that is not above zero. -/
def nonPositiveField? (c : Request) : Option String :=
  ([("training_days", c.trainingDays), ("test_days", c.testDays), ("step_days", c.stepDays)].find?
    fun e => decide (e.2 ≤ 0)).map (·.1)

/-- The first parameter that the strategy does not have, base values before ranges. -/
def unknownName? (c : Request) : Option String :=
  (c.baseParams.names ++ c.paramRanges.names).find? fun n => !CrossoverParams.knownNames.contains n

/-- What is wrong with the request before its space is looked at. -/
def requestFault? (c : Request) : Option RequestFault :=
  if (trimmed c.symbol).isEmpty then some .emptySymbol
  else if hasPathParts c.symbol then some (.symbolPath c.symbol)
  else if c.stop ≤ c.start then some (.endNotAfterStart c.stop c.start)
  else
    match c.nonPositiveField?, c.unknownName? with
    | some field, _ => some (.notPositive field)
    | none, some name => some (.unknownParameter name)
    | none, none => none

/-- What is wrong with the search of a space, or with the limits. -/
def searchFault? (c : Request) (space : SearchSpace) : Option RequestFault :=
  if c.method = .grid ∧ c.maxCombinations < space.size then
    some (.gridTooLarge space.size c.maxCombinations)
  else if c.method = .random ∧ c.samples = 0 then some .noSamples
  else if c.guardrails.maxDrawdownPct ≤ 0 then some .drawdownLimit
  else if c.guardrails.lotteryTradeThreshold ≤ 0 then some .lotteryLimit
  else none

/-- The parameter space of a request, if all of the request is in order. -/
def checkedSpace (c : Request) : Except RequestError SearchSpace :=
  match c.requestFault? with
  | some fault => .error (.invalid fault)
  | none =>
    match SearchSpace.ofRanges c.paramRanges with
    | .error e => .error (.space e)
    | .ok space =>
      match c.searchFault? space with
      | some fault => .error (.invalid fault)
      | none =>
        match c.simulation.fault? with
        | some fault => .error (.simulation (.settings fault))
        | none => .ok space

/-- Checks everything that needs no candles. -/
def validate (c : Request) : Except RequestError Unit := do
  let _ ← c.checkedSpace
  return ()

/-- The schedule of the request, absent when a period is longer than any span. -/
def schedule? (c : Request) : Option Schedule :=
  Schedule.ofDays? c.start c.stop c.trainingDays c.testDays c.stepDays c.windowType

/-- The windows of the request. -/
def windows (c : Request) : Except ScheduleError (List Window) :=
  match c.schedule? with
  | none => .error .outOfCalendar
  | some spec => spec.windows

/-- The search of one window. -/
def searchPlan (c : Request) : SearchPlan where
  method := c.method
  objective := c.objective
  samples := c.samples
  seed := c.seed
  maxCombinations := c.maxCombinations
  guardrails := c.guardrails
  robust := c.robustScore
  settings := c.simulation
  threads := c.threads

/-- The request as a document. -/
def toDocument (c : Request) : Document :=
  .table [("symbol", .text c.symbol), ("strategy", .text strategyName),
    ("start", c.start.toDocument), ("end", c.stop.toDocument),
    ("training_days", .integer c.trainingDays), ("test_days", .integer c.testDays),
    ("step_days", .integer c.stepDays), ("window_type", .text c.windowType.name),
    ("base_params", ParamSet.toDocument c.baseParams),
    ("param_ranges", .table (c.paramRanges.entries.map fun e => (e.1, e.2.toDocument))),
    ("metric", .text c.objective.name), ("method", .text c.method.name),
    ("samples", .integer c.samples), ("seed", .integer c.seed.toNat),
    ("max_combinations", .integer c.maxCombinations), ("guardrails", c.guardrails.toDocument),
    ("simulation", c.simulation.toDocument), ("robust_score", c.robustScore.toDocument),
    ("threads", .integer c.threads), ("include_trades", .bool c.includeTrades)]

/-- The fields of a request in order. -/
def fieldNames : List String :=
  ["symbol", "strategy", "start", "end", "training_days", "test_days", "step_days", "window_type",
    "base_params", "param_ranges", "metric", "method", "samples", "seed", "max_combinations",
    "guardrails", "simulation", "robust_score", "threads", "include_trades"]

/-- The name of the strategy, and nothing else. -/
def strategy? (name : String) : Option Unit := if name = strategyName then some () else none

/-- The ranges of a document. -/
def ranges? : Document → Option (NameMap ParamChoices)
  | .table entries =>
    (entries.mapM fun e => (ParamChoices.ofDocument? e.2).map fun r => (e.1, r)).map NameMap.ofList
  | _ => none

/-- The request of a document. -/
def ofDocument? (d : Document) : Option Request := do
  let r ← Record.ofDocument? fieldNames d
  let symbol ← r.required "symbol" Document.text?
  r.defaulted "strategy" () (Document.choice? strategy?)
  let start ← r.required "start" Instant.ofDocument?
  let stop ← r.required "end" Instant.ofDocument?
  let c := new symbol start stop
  some {
    symbol, start, stop
    trainingDays := ← r.required "training_days" Document.int64?
    testDays := ← r.required "test_days" Document.int64?
    stepDays := ← r.required "step_days" Document.int64?
    windowType := ← r.defaulted "window_type" c.windowType (Document.choice? TrainingMode.ofName?)
    baseParams := ← r.defaulted "base_params" c.baseParams ParamSet.ofDocument?
    paramRanges := ← r.defaulted "param_ranges" c.paramRanges ranges?
    objective := ← r.defaulted "metric" c.objective (Document.choice? Objective.ofName?)
    method := ← r.defaulted "method" c.method (Document.choice? SearchCoverage.ofName?)
    samples := ← r.defaulted "samples" c.samples Document.count?
    seed := ← r.defaulted "seed" c.seed fun d => d.count?.map Nat.toUInt64
    maxCombinations := ← r.defaulted "max_combinations" c.maxCombinations Document.count?
    guardrails := ← r.defaulted "guardrails" c.guardrails Guardrails.ofDocument?
    simulation := ← r.defaulted "simulation" c.simulation AccountSettings.ofDocument?
    robustScore := ← r.defaulted "robust_score" c.robustScore RobustScore.ofDocument?
    threads := ← r.defaulted "threads" c.threads Document.count?
    includeTrades := ← r.defaulted "include_trades" c.includeTrades Document.bool? }

/-- The text that identifies a request. -/
def canonicalText (c : Request) : String := Json.compact c.toDocument

/-- The digest of the text that identifies a request. -/
def fingerprint (c : Request) : String := Blake3.hexDigest c.canonicalText.toUTF8.toList

end Request
end Backtest
