import Backtest.Document.Record
import Backtest.Indicator.MovingAverage
import Backtest.Params.Set

/-!
# Strategy parameters

The parameters of the crossover strategy with their defaults. Percentages are fractions: `0.01` is
one percent. Reading a parameter set writes its entries over the defaults in the order of their
names, stops at the first that does not fit, and checks the whole last.
-/
namespace Backtest

/-- What a parameter out of range should have been. -/
inductive RangeRule where
  | nonnegative
  | atLeastOne
  | atLeastTwo
  | finiteNonnegative
  | positiveForTrailing
  | averageKind (given : String)
deriving Repr, DecidableEq

/-- The wording of a rule. -/
def RangeRule.text : RangeRule → String
  | nonnegative => "must be >= 0"
  | atLeastOne => "must be >= 1"
  | atLeastTwo => "must be >= 2"
  | finiteNonnegative => "must be a finite value >= 0"
  | positiveForTrailing => "must be > 0 when the trailing stop is enabled"
  | averageKind given => s!"unknown moving average `{given}` (ema|sma)"

/-- Why parameters were refused. -/
inductive ParamError where
  | unknown (name : String)
  | wrongKind (name : String) (expected : ParamKind) (value : ParamValue)
  | outOfRange (name : String) (rule : RangeRule)
  | fastNotBelowSlow (fast slow : Nat)
deriving DecidableEq

/-- The wording of a refusal. -/
def ParamError.message : ParamError → String
  | unknown name => s!"unknown parameter `{name}`"
  | wrongKind name expected value =>
    s!"parameter `{name}` expects " ++ expected.name ++ ", got " ++ value.kind.name ++ " (" ++
      value.display ++ ")"
  | outOfRange name rule => s!"parameter `{name}` out of range: " ++ rule.text
  | fastNotBelowSlow fast slow => s!"fast_period ({fast}) must be < slow_period ({slow})"

/-- Parameters of the moving-average crossover. -/
structure CrossoverParams where
  averageKind : AverageKind := .exponential
  fastPeriod : Nat := 9
  slowPeriod : Nat := 21
  takeProfitPct : Float := 0.03
  stopLossPct : Float := 0.015
  cooldownCandles : Nat := 0
  enableShort : Bool := false
  trailingStopEnabled : Bool := false
  trailingActivationPct : Float := 0.01
  trailingDistancePct : Float := 0.005
  trendEnabled : Bool := false
  trendMultiplier : Nat := 4
  trendPeriod : Nat := 21
  minSeparationPct : Float := 0

namespace CrossoverParams

/-- The names of all parameters. -/
def knownNames : List String :=
  ["ma_type", "fast_period", "slow_period", "take_profit_pct", "stop_loss_pct", "cooldown_candles",
    "enable_short", "trailing_stop_enabled", "trailing_activation_pct", "trailing_distance_pct",
    "htf_bias_enabled", "htf_multiplier", "htf_ema_period", "min_separation_pct"]

/-- Why the parameters do not go together, if they do not. -/
def fault? (p : CrossoverParams) : Option ParamError :=
  if p.fastPeriod = 0 then some (.outOfRange "fast_period" .atLeastOne)
  else if p.slowPeriod ≤ p.fastPeriod then some (.fastNotBelowSlow p.fastPeriod p.slowPeriod)
  else if p.trailingStopEnabled ∧ p.trailingDistancePct ≤ 0 then
    some (.outOfRange "trailing_distance_pct" .positiveForTrailing)
  else if p.trendEnabled ∧ p.trendMultiplier < 2 then
    some (.outOfRange "htf_multiplier" .atLeastTwo)
  else if p.trendEnabled ∧ p.trendPeriod = 0 then some (.outOfRange "htf_ema_period" .atLeastOne)
  else none

/-- Checks that the parameters go together. -/
def validate (p : CrossoverParams) : Except ParamError Unit :=
  match p.fault? with
  | some e => .error e
  | none => .ok ()

/-- How many candles the averages need before they can cross. -/
def warmup (p : CrossoverParams) : Nat := p.slowPeriod

/-- A count from a number without a fraction. -/
def readCount (name : String) (v : ParamValue) : Except ParamError Nat :=
  match v.int? with
  | none => .error (.wrongKind name .int v)
  | some n => if n < 0 then .error (.outOfRange name .nonnegative) else .ok n.toNat

/-- A percentage from a number. -/
def readPct (name : String) (v : ParamValue) : Except ParamError Float :=
  match v.float? with
  | none => .error (.wrongKind name .float v)
  | some x =>
    if x.isFinite ∧ ¬ x < 0 then .ok x else .error (.outOfRange name .finiteNonnegative)

/-- A truth value. -/
def readBool (name : String) (v : ParamValue) : Except ParamError Bool :=
  match v.bool? with
  | none => .error (.wrongKind name .bool v)
  | some b => .ok b

/-- A kind of average from its name. -/
def readKind (name : String) (v : ParamValue) : Except ParamError AverageKind :=
  match v.text? with
  | none => .error (.wrongKind name .text v)
  | some s =>
    match AverageKind.ofName? s with
    | none => .error (.outOfRange name (.averageKind s))
    | some k => .ok k

/-- Writes one named value over the parameters. -/
def assign (p : CrossoverParams) (name : String) (v : ParamValue) :
    Except ParamError CrossoverParams :=
  match name with
  | "ma_type" => do return { p with averageKind := ← readKind name v }
  | "fast_period" => do return { p with fastPeriod := ← readCount name v }
  | "slow_period" => do return { p with slowPeriod := ← readCount name v }
  | "take_profit_pct" => do return { p with takeProfitPct := ← readPct name v }
  | "stop_loss_pct" => do return { p with stopLossPct := ← readPct name v }
  | "cooldown_candles" => do return { p with cooldownCandles := ← readCount name v }
  | "enable_short" => do return { p with enableShort := ← readBool name v }
  | "trailing_stop_enabled" => do return { p with trailingStopEnabled := ← readBool name v }
  | "trailing_activation_pct" => do return { p with trailingActivationPct := ← readPct name v }
  | "trailing_distance_pct" => do return { p with trailingDistancePct := ← readPct name v }
  | "htf_bias_enabled" => do return { p with trendEnabled := ← readBool name v }
  | "htf_multiplier" => do return { p with trendMultiplier := ← readCount name v }
  | "htf_ema_period" => do return { p with trendPeriod := ← readCount name v }
  | "min_separation_pct" => do return { p with minSeparationPct := ← readPct name v }
  | other => .error (.unknown other)

/-- Writes entries over the parameters one after the other. -/
def assignAll (p : CrossoverParams) (entries : List (String × ParamValue)) :
    Except ParamError CrossoverParams :=
  entries.foldlM (fun p e => p.assign e.1 e.2) p

/-- The parameters of a set: its entries over the defaults, if all of it fits. -/
def ofSet (s : ParamSet) : Except ParamError CrossoverParams := do
  let p ← assignAll {} s.entries
  p.validate
  return p

/-- A count as a parameter value; it wraps beyond 64 bits with a sign. -/
def countValue (n : Nat) : ParamValue := .int (Int64.ofNat n)

/-- The set that names every parameter. -/
def toSet (p : CrossoverParams) : ParamSet :=
  .ofList
    [("ma_type", .text p.averageKind.name),
      ("fast_period", countValue p.fastPeriod),
      ("slow_period", countValue p.slowPeriod),
      ("take_profit_pct", .float p.takeProfitPct),
      ("stop_loss_pct", .float p.stopLossPct),
      ("cooldown_candles", countValue p.cooldownCandles),
      ("enable_short", .bool p.enableShort),
      ("trailing_stop_enabled", .bool p.trailingStopEnabled),
      ("trailing_activation_pct", .float p.trailingActivationPct),
      ("trailing_distance_pct", .float p.trailingDistancePct),
      ("htf_bias_enabled", .bool p.trendEnabled),
      ("htf_multiplier", countValue p.trendMultiplier),
      ("htf_ema_period", countValue p.trendPeriod),
      ("min_separation_pct", .float p.minSeparationPct)]

/-- The parameters as a document. -/
def toDocument (p : CrossoverParams) : Document :=
  .table [("ma_type", .text p.averageKind.name), ("fast_period", .integer p.fastPeriod),
    ("slow_period", .integer p.slowPeriod), ("take_profit_pct", .real p.takeProfitPct),
    ("stop_loss_pct", .real p.stopLossPct), ("cooldown_candles", .integer p.cooldownCandles),
    ("enable_short", .bool p.enableShort), ("trailing_stop_enabled", .bool p.trailingStopEnabled),
    ("trailing_activation_pct", .real p.trailingActivationPct),
    ("trailing_distance_pct", .real p.trailingDistancePct),
    ("htf_bias_enabled", .bool p.trendEnabled), ("htf_multiplier", .integer p.trendMultiplier),
    ("htf_ema_period", .integer p.trendPeriod), ("min_separation_pct", .real p.minSeparationPct)]

/-- The parameters of a document. -/
def ofDocument? (d : Document) : Option CrossoverParams := do
  let r ← Record.ofDocument? knownNames d
  some {
    averageKind := ← r.required "ma_type" (Document.choice? AverageKind.named?)
    fastPeriod := ← r.required "fast_period" Document.count?
    slowPeriod := ← r.required "slow_period" Document.count?
    takeProfitPct := ← r.required "take_profit_pct" Document.real?
    stopLossPct := ← r.required "stop_loss_pct" Document.real?
    cooldownCandles := ← r.required "cooldown_candles" Document.count?
    enableShort := ← r.required "enable_short" Document.bool?
    trailingStopEnabled := ← r.required "trailing_stop_enabled" Document.bool?
    trailingActivationPct := ← r.required "trailing_activation_pct" Document.real?
    trailingDistancePct := ← r.required "trailing_distance_pct" Document.real?
    trendEnabled := ← r.required "htf_bias_enabled" Document.bool?
    trendMultiplier := ← r.required "htf_multiplier" Document.count?
    trendPeriod := ← r.required "htf_ema_period" Document.count?
    minSeparationPct := ← r.required "min_separation_pct" Document.real? }

end CrossoverParams
end Backtest
