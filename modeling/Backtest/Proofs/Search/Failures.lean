import Backtest.Proofs.Simulation.Replay
import Backtest.Proofs.Strategy.Fields
import Backtest.Search.Run

/-!
# How a search can fail

Each step of a search fails in its own way: the base values, a grid above the limit, a combination
that is refused for more than its place, workers that cannot be had, a replay that is refused, or
the cancellation. What a search finds was read from its parameter set once, so it is read from there
again.

## Main definitions

* `WorkerPool.Serves` — workers for a number of threads.
* `Search.FailsBy` — the failures of a search and what each tells.
* `Search.ends_run` — every search ends with candidates that can be read, or fails so.
-/
namespace Backtest

/-- There are workers for so many threads, or none are needed. -/
def WorkerPool.Serves (pool : WorkerPool) (threads : Nat) : Prop :=
  threads = 1 ∨ pool threads = none

namespace Search

variable {candles : List Candle} {space : SearchSpace} {base : ParamSet} {plan : SearchPlan}
  {window : Nat} {cancelled : Bool} {pool : WorkerPool} {threads : Nat}

/-- How a search fails. -/
inductive FailsBy (candles : List Candle) (space : SearchSpace) (base : ParamSet)
    (plan : SearchPlan) (cancelled : Bool) (pool : WorkerPool) : SearchError → Prop
  | base (e : ParamError) (h : CrossoverParams.ofSet (fixedParams space base) = .error e) :
    FailsBy candles space base plan cancelled pool (.baseParams e)
  | grid (hgrid : plan.method = .grid) (hsize : plan.maxCombinations < space.size) :
    FailsBy candles space base plan cancelled pool
      (.tooManyCombinations space.size plan.maxCombinations)
  | candidate (i : Nat) (e : ParamError)
    (h : CrossoverParams.ofSet (ParamSet.overlay base (space.combination i)) = .error e)
    (hrefused : isSkippable e = false) :
    FailsBy candles space base plan cancelled pool
      (.candidateParams (ParamSet.overlay base (space.combination i)) e)
  | replay (p : CrossoverParams) (e : SimulationError) (hp : p.fault? = none)
    (h : Simulation.run candles p plan.settings = .error e) :
    FailsBy candles space base plan cancelled pool (.simulation e)
  | pool (reason : String) (hthreads : plan.threads ≠ 1) (h : pool plan.threads = some reason) :
    FailsBy candles space base plan cancelled pool (.workerPool reason)
  | cancelled (h : cancelled = true) :
    FailsBy candles space base plan cancelled pool .cancelled

/-- Parameters that can be read from their set. -/
def IsReadable (params : ParamSet) : Prop := ∃ p, CrossoverParams.ofSet params = .ok p

theorem ends_checkBase :
    Ends (fun _ => True) (FailsBy candles space base plan cancelled pool)
      (checkBase space base) := by
  rw [checkBase]
  split
  · trivial
  · trivial
  · rename_i e _ h
    exact .base e h

theorem ends_trialNumbers :
    Ends (fun _ => True) (FailsBy candles space base plan cancelled pool)
      (trialNumbers space plan window) := by
  rw [trialNumbers]
  split
  · rename_i hgrid
    split
    · rename_i hsize
      exact .grid hgrid hsize
    · trivial
  · split
    · trivial
    · trivial

/-- Candidates are read from their sets. -/
theorem ends_admissible (indices : List Nat) :
    Ends (fun found => ∀ c ∈ found.1, CrossoverParams.ofSet c.1 = .ok c.2)
      (FailsBy candles space base plan cancelled pool) (admissible space base indices) := by
  induction indices with
  | nil => exact fun c hc => nomatch hc
  | cons i rest ih =>
    rw [admissible]
    simp only
    split
    · rename_i typed htyped
      exact ih.bind fun found hfound => List.forall_mem_cons.2 ⟨htyped, hfound⟩
    · rename_i e hrefused
      split
      · exact ih.bind fun found hfound => hfound
      · rename_i hskip
        exact .candidate i e hrefused (Bool.eq_false_iff.2 hskip)

/-- A candidate keeps its set, and is refused only with its replay. -/
theorem ends_evaluate (candles : List Candle) (plan : SearchPlan) (params : ParamSet)
    (typed : CrossoverParams) :
    Ends (fun c => c.params = params)
      (fun e => Simulation.run candles typed plan.settings = .error e)
      (Candidate.evaluate candles plan params typed) := by
  rw [Candidate.evaluate]
  cases hrun : Simulation.run candles typed plan.settings with
  | error e => exact rfl
  | ok r => exact rfl

/-- Workers are there, or it is told why they are not. -/
theorem ends_openPool (threads : Nat) (pool : WorkerPool) :
    Ends (fun _ => pool.Serves threads)
      (fun e => ∃ reason, e = .workerPool reason ∧ threads ≠ 1 ∧ pool threads = some reason)
      (openPool threads pool) := by
  rw [openPool]
  split
  · rename_i hone
    exact .inl hone
  · rename_i hmany
    split
    · rename_i hready
      exact .inr hready
    · rename_i reason hreason
      exact ⟨reason, rfl, hmany, hreason⟩

theorem openPool_eq_ok_iff : openPool threads pool = .ok () ↔ pool.Serves threads := by
  have hends := ends_openPool threads pool
  refine ⟨hends.value_of_eq_ok, fun hserves => ?_⟩
  cases hopen : openPool threads pool with
  | ok => rfl
  | error e =>
    obtain ⟨reason, -, hmany, hreason⟩ := hends.failure_of_eq_error hopen
    rw [hserves.resolve_left hmany] at hreason
    cases hreason

theorem ends_evaluateAll {candidates : List (ParamSet × CrossoverParams)}
    (hread : ∀ c ∈ candidates, CrossoverParams.ofSet c.1 = .ok c.2) :
    Ends (fun results => ∀ c ∈ results, IsReadable c.params)
      (FailsBy candles space base plan cancelled pool)
      (evaluateAll candles plan cancelled pool candidates) := by
  rw [evaluateAll]
  have hopen : Ends (fun _ => True) (FailsBy candles space base plan cancelled pool)
      (openPool plan.threads pool) := by
    refine (ends_openPool plan.threads pool).imp (fun _ _ => trivial) fun e hfails => ?_
    obtain ⟨reason, rfl, hmany, hreason⟩ := hfails
    exact .pool reason hmany hreason
  refine hopen.bind fun _ _ => ?_
  split
  · rename_i hcancelled
    exact .cancelled (Bool.and_eq_true_iff.1 hcancelled).1
  · refine ends_mapM fun c hc => ?_
    have hends := ends_evaluate candles plan c.1 c.2
    cases heval : Candidate.evaluate candles plan c.1 c.2 with
    | error e =>
      exact .replay c.2 e (CrossoverParams.ofSet_eq_ok_iff.1 (hread c hc)).2
        (hends.failure_of_eq_error heval)
    | ok result =>
      have hparams := hends.value_of_eq_ok heval
      exact ⟨c.2, by rw [hparams]; exact hread c hc⟩

/-- A search finds candidates that can be read, or fails in one of the ways it can. -/
theorem ends_run (candles : List Candle) (space : SearchSpace) (base : ParamSet) (plan : SearchPlan)
    (window : Nat) (cancelled : Bool) (pool : WorkerPool) :
    Ends (fun outcome => ∀ c ∈ outcome.ranked, IsReadable c.params)
      (FailsBy candles space base plan cancelled pool)
      (run candles space base plan window cancelled pool) := by
  rw [run]
  refine ends_checkBase.bind fun _ _ => ends_trialNumbers.bind fun indices _ =>
    (ends_admissible indices).bind fun found hfound =>
      (ends_evaluateAll hfound).bind fun results hresults c hc => ?_
  have hkept : c ∈ (results.partition Candidate.keepsGuardrails).1 := List.mem_mergeSort.1 hc
  rw [List.partition_eq_filter_filter] at hkept
  exact hresults c (List.mem_filter.1 hkept).1

/-- A search ends as cancelled only if it was. -/
theorem run_ne_cancelled : run candles space base plan window false pool ≠ .error .cancelled := by
  intro h
  cases (ends_run candles space base plan window false pool).failure_of_eq_error h with
  | cancelled hcancelled => cases hcancelled

end Search
end Backtest
