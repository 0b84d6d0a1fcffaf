import Backtest.Performance.Objective
import Backtest.Random.Sample
import Backtest.Random.Seed
import Backtest.Search.Guardrails
import Backtest.Search.Space
import Backtest.Simulation.Run

/-!
# Candidates

Which combinations a search tries, how one is judged, and how those that keep the guardrails are
ranked.
-/
namespace Backtest

/-- How a search goes through a space. -/
inductive SearchCoverage where
  | grid
  | random
deriving Repr, DecidableEq

namespace SearchCoverage

/-- The name of a method. -/
def name : SearchCoverage → String
  | grid => "grid_search"
  | random => "random_search"

/-- The method with a name. -/
def ofName? : String → Option SearchCoverage
  | "grid_search" => some grid
  | "random_search" => some random
  | _ => none

end SearchCoverage

/-- How many combinations a grid search tries at most where nothing else is said. -/
def standardGridLimit : Nat := 10000

/-- Everything a search needs besides the space and the candles. -/
structure SearchPlan where
  method : SearchCoverage := .grid
  objective : Objective := .standard
  samples : Nat := 100
  seed : UInt64 := 42
  maxCombinations : Nat := standardGridLimit
  guardrails : Guardrails := {}
  robust : RobustScore := {}
  settings : AccountSettings := {}
  threads : Nat := 0

/-- Why a search gave up. -/
inductive SearchError where
  | space (error : AxisError)
  | tooManyCombinations (count limit : Nat)
  | baseParams (error : ParamError)
  | candidateParams (params : ParamSet) (error : ParamError)
  | simulation (error : SimulationError)
  | workerPool (reason : String)
  | cancelled

/-- The wording of a failure. -/
def SearchError.message : SearchError → String
  | space error => error.message
  | tooManyCombinations count limit =>
    s!"grid has {count} combinations, exceeding the limit of {limit}"
  | baseParams _ => "base parameters are invalid"
  | candidateParams params _ => "candidate " ++ ParamSet.display params ++ " is invalid"
  | simulation _ => "simulation failed"
  | workerPool reason => "failed to build worker pool: " ++ reason
  | cancelled => "search cancelled"

/-- The scope of the random numbers of a search. -/
def samplerScope : String := "random_search"

/-- The numbers of the combinations to try, in rising order: all of them, or a sample that depends
on the seed and the window alone. -/
def trialNumbers (space : SearchSpace) (plan : SearchPlan) (window : Nat)
    (patience : Nat := Sample.standardPatience) : Except SearchError (List Nat) :=
  match plan.method with
  | .grid =>
    if plan.maxCombinations < space.size then
      .error (.tooManyCombinations space.size plan.maxCombinations)
    else .ok (List.range space.size)
  | .random =>
    if space.size ≤ plan.samples then .ok (List.range space.size)
    else
      .ok (Sample.indices space.size plan.samples
        (Seed.generator plan.seed samplerScope window.toUInt64) patience)

/-- A candidate that was replayed. -/
structure Candidate where
  params : ParamSet
  metrics : Metrics
  objective : Float
  disqualified : Option Disqualification

namespace Candidate

/-- Whether the candidate keeps the guardrails. -/
def keepsGuardrails (c : Candidate) : Bool := c.disqualified.isNone

/-- The better candidate comes first: by the objective, then by more trades, then by the order of
parameter sets. -/
def betterFirst (a b : Candidate) : Ordering :=
  (Binary64.compare b.objective a.objective).then
    ((Ord.compare b.metrics.totalTrades a.metrics.totalTrades).then
      (ParamSet.compare a.params b.params))

/-- Candidates from best to worst. -/
def ranked (cs : List Candidate) : List Candidate :=
  cs.mergeSort fun a b => betterFirst a b != .gt

/-- Replays one set of parameters and judges the outcome. -/
def evaluate (candles : List Candle) (plan : SearchPlan) (params : ParamSet)
    (typed : CrossoverParams) : Except SimulationError Candidate := do
  let result ← Simulation.run candles typed plan.settings
  let metrics :=
    Metrics.compute result.trades result.equity plan.settings.initialBalance plan.robust
  return ⟨params, metrics, plan.objective.extract metrics, plan.guardrails.check metrics⟩

end Candidate
end Backtest
