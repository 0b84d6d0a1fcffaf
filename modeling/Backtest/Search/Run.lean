import Backtest.Search.Candidate

/-!
# Searches

A search replays the base parameters overlaid with each combination it tries. Combinations that no
strategy can have are counted and left out; the rest is split by the guardrails and ranked. Unless
it works in one thread, a search needs a pool of workers, which may not be had; what it finds does
not depend on them.
-/
namespace Backtest

/-- What becomes of a request for worker threads, by their number: nothing, or why they cannot be
had. -/
def WorkerPool : Type := Nat → Option String

/-- A pool of any size. -/
def WorkerPool.ready : WorkerPool := fun _ => none

/-- What a search found: the eligible candidates from best to worst, the others in the order they
were tried, and how many combinations were left out. -/
structure SearchFindings where
  ranked : List Candidate
  disqualified : List Candidate
  skipped : Nat

namespace SearchFindings

/-- The best candidate. -/
def best? (o : SearchFindings) : Option Candidate := o.ranked.head?

/-- How many candidates were replayed. -/
def evaluated (o : SearchFindings) : Nat := o.ranked.length + o.disqualified.length

/-- Why there is no best candidate. -/
def emptyHandedText (o : SearchFindings) : String :=
  if o.evaluated = 0 then
    "no qualifying parameters: no valid combinations (" ++ toString o.skipped ++ " skipped)"
  else
    let first := match o.disqualified.head?.bind (·.disqualified) with
      | some reason => reason.message
      | none => ""
    "no qualifying parameters: all " ++ toString o.disqualified.length ++
      " candidates disqualified (first: " ++ first ++ ")"

end SearchFindings

namespace Search

/-- Whether a refusal only means that the combination is no strategy. -/
def isSkippable : ParamError → Bool
  | .fastNotBelowSlow _ _ => true
  | .outOfRange _ _ => true
  | _ => false

/-- The candidates of combinations, and how many were left out. -/
def admissible (space : SearchSpace) (base : ParamSet) :
    List Nat → Except SearchError (List (ParamSet × CrossoverParams) × Nat)
  | [] => .ok ([], 0)
  | i :: rest =>
    let params := ParamSet.overlay base (space.combination i)
    match CrossoverParams.ofSet params with
    | .ok typed => do
      let (built, skipped) ← admissible space base rest
      return ((params, typed) :: built, skipped)
    | .error e =>
      if isSkippable e then do
        let (built, skipped) ← admissible space base rest
        return (built, skipped + 1)
      else .error (.candidateParams params e)

/-- The base values that no axis replaces. -/
def fixedParams (space : SearchSpace) (base : ParamSet) : ParamSet :=
  .ofList (base.entries.filter fun e => !space.names.contains e.1)

/-- Checks the base values that no axis replaces. The periods may still be out of order. -/
def checkBase (space : SearchSpace) (base : ParamSet) : Except SearchError Unit :=
  match CrossoverParams.ofSet (fixedParams space base) with
  | .ok _ => .ok ()
  | .error (.fastNotBelowSlow _ _) => .ok ()
  | .error e => .error (.baseParams e)

/-- Asks for the workers of a search; a single thread needs none. -/
def openPool (threads : Nat) (pool : WorkerPool) : Except SearchError Unit :=
  if threads = 1 then .ok ()
  else match pool threads with
    | none => .ok ()
    | some reason => .error (.workerPool reason)

/-- Replays candidates one after the other; a search that was cancelled replays none. -/
def evaluateAll (candles : List Candle) (plan : SearchPlan) (cancelled : Bool) (pool : WorkerPool)
    (candidates : List (ParamSet × CrossoverParams)) : Except SearchError (List Candidate) := do
  openPool plan.threads pool
  if cancelled && !candidates.isEmpty then .error .cancelled
  else
    candidates.mapM fun c =>
      match Candidate.evaluate candles plan c.1 c.2 with
      | .ok result => .ok result
      | .error e => .error (.simulation e)

/-- Searches a space on one slice of candles. -/
def run (candles : List Candle) (space : SearchSpace) (base : ParamSet)
    (plan : SearchPlan) (window : Nat) (cancelled : Bool) (pool : WorkerPool := .ready) :
    Except SearchError SearchFindings := do
  checkBase space base
  let indices ← trialNumbers space plan window
  let (candidates, skipped) ← admissible space base indices
  let results ← evaluateAll candles plan cancelled pool candidates
  let (eligible, disqualified) := results.partition Candidate.keepsGuardrails
  return ⟨Candidate.ranked eligible, disqualified, skipped⟩

end Search
end Backtest
