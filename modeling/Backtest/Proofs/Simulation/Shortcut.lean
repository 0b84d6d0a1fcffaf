import Backtest.Proofs.Simulation.Replay

/-!
# The shortcut for few candles

A run of fewer candles than the slow average needs is answered without a step. Taking every step
would answer the same: a crossing compares the averages of two candles in a row, so the slow one has
to be warm on the candle before, and until then no step crosses, enters or leaves.

## Main definitions

* `Simulation.outcomes` — what happens on every candle of a run.
* `CandleOutcome.IsQuiet` — a candle on which nothing happens.
* `Simulation.fullReport` — the report of a run that takes every step.
* `map_cross_outcomes` — the crossings of a run are those of its closes.
* `isQuiet_of_mem_take_outcomes` — the candles before the slow average is warm are quiet.
* `run_eq_fullReport` — the shortcut agrees with the steps.
-/
namespace Backtest

/-- Nothing happened on a candle: no crossing, and no position was closed or opened. -/
structure CandleOutcome.IsQuiet (o : CandleOutcome) : Prop where
  cross : o.cross = none
  closed : o.closed = none
  opened : o.opened = none

namespace SimulationState

/-- A position is opened on a crossing only. -/
theorem opened_step_of_no_cross {s : SimulationState} {candle : Candle} (ctx : CandleContext)
    (hcross : s.crossOn candle.close = none) : (s.step candle ctx).2.opened = none := by
  rcases s.entry_cases candle ctx with ⟨-, hopened, -⟩ | ⟨side, hadmits, -, -⟩
  · exact hopened
  · have hsignal := hadmits.signalled
    rw [hcross] at hsignal
    cases hsignal

end SimulationState

namespace Simulation

variable {params : CrossoverParams} {settings : AccountSettings}

/-- What happens on candles that start at an index, of which the last is the end of the data. -/
def outcomesFrom (params : CrossoverParams) (settings : AccountSettings) :
    Nat → SimulationState → List Candle → List CandleOutcome
  | _, _, [] => []
  | k, s, c :: rest =>
    let (next, outcome) := s.step c ⟨params, settings, k, rest.isEmpty⟩
    outcome :: outcomesFrom params settings (k + 1) next rest

/-- What happens on every candle of a run. -/
def outcomes (params : CrossoverParams) (settings : AccountSettings) (candles : List Candle) :
    List CandleOutcome :=
  outcomesFrom params settings 0 (.new params settings) candles

/-- The report of a run that takes every step, however few candles there are. -/
def fullReport (params : CrossoverParams) (settings : AccountSettings) (first : Candle)
    (candles : List Candle) : Replay :=
  let (last, trades) := replay params settings 0 (.new params settings) candles
  result settings first candles last trades

/-- The report of a run on which nothing happens: the balance stays what it is at the start. -/
def idleReport (settings : AccountSettings) (first : Candle) : Replay :=
  ⟨[], [⟨first.openTime, settings.initialBalance⟩], none, settings.initialBalance⟩

theorem outcomesFrom_cons (k : Nat) (s : SimulationState) (c : Candle) (rest : List Candle) :
    outcomesFrom params settings k s (c :: rest) =
      (s.step c ⟨params, settings, k, rest.isEmpty⟩).2 ::
        outcomesFrom params settings (k + 1)
          (s.step c ⟨params, settings, k, rest.isEmpty⟩).1 rest := rfl

/-- The trades of a replay are those closed by its steps. -/
theorem filterMap_closed_outcomesFrom (candles : List Candle) (k : Nat) (s : SimulationState) :
    (outcomesFrom params settings k s candles).filterMap (·.closed) =
      (replay params settings k s candles).2.map (·.1) := by
  induction candles generalizing k s with
  | nil => rfl
  | cons c rest ih =>
    rw [outcomesFrom_cons, replay_cons, List.map_append, ← ih]
    cases hclosed : (s.step c ⟨params, settings, k, rest.isEmpty⟩).2.closed with
    | none => simp [booked_of_closed_eq_none hclosed, hclosed]
    | some trade => simp [booked_of_closed_eq_some hclosed, hclosed]

/-- While no candle crosses, a flat account stays flat and nothing happens to it. -/
theorem isQuiet_outcomesFrom {closes : List Float} (candles : List Candle) {k n : Nat}
    {s : SimulationState} (hflat : s.account.position = none)
    (hfollows : Follows params (closes.take k) s)
    (hcloses : closes.drop k = candles.map (·.close))
    (hcross : ∀ j < n, crossAt params closes (k + j) = none) :
    ∀ o ∈ (outcomesFrom params settings k s candles).take n, o.IsQuiet := by
  induction candles generalizing k n s with
  | nil => simp [outcomesFrom]
  | cons c rest ih =>
    cases n with
    | zero => simp
    | succ n =>
      have hk : closes[k]? = some c.close := by
        rw [← List.head?_drop, hcloses]
        rfl
      have hnone : s.crossOn c.close = none := by
        rw [crossOn_eq_crossAt hfollows hk]
        exact hcross 0 (Nat.succ_pos n)
      have htake : closes.take (k + 1) = closes.take k ++ [c.close] := by
        rw [List.take_add_one, hk]
        rfl
      have hdrop : closes.drop (k + 1) = rest.map (·.close) := by
        rw [← List.drop_drop, hcloses]
        rfl
      obtain ⟨hpos, -, hclosed⟩ :=
        step_of_no_cross ⟨params, settings, k, rest.isEmpty⟩ hflat hnone
      intro o ho
      rw [outcomesFrom_cons, List.take_succ_cons, List.mem_cons] at ho
      rcases ho with rfl | ho
      · exact ⟨hnone, hclosed, SimulationState.opened_step_of_no_cross _ hnone⟩
      · refine ih hpos (htake ▸ follows_step hfollows c _) hdrop (fun j hj => ?_) o ho
        rw [Nat.add_right_comm, Nat.add_assoc]
        exact hcross (j + 1) (Nat.succ_lt_succ hj)

/-- Before the slow average is warm nothing happens. -/
theorem isQuiet_of_mem_take_outcomes (candles : List Candle) :
    ∀ o ∈ (outcomes params settings candles).take params.slowPeriod, o.IsQuiet := by
  refine isQuiet_outcomesFrom candles rfl (follows_new params settings) rfl fun j hj => ?_
  cases hcross : crossAt params (candles.map (·.close)) (0 + j) with
  | none => rfl
  | some cross =>
    have hwarm := slowPeriod_le_of_crossAt hcross
    omega

theorem fullReport_of_short (first : Candle) {candles : List Candle}
    (hshort : candles.length < params.slowPeriod) :
    fullReport params settings first candles = idleReport settings first := by
  obtain ⟨hpos, hbalance, htrades⟩ := replay_of_short settings hshort
  change result settings first candles _ _ = _
  rw [result, hpos, hbalance, htrades]
  rfl

/-- **The shortcut for few candles agrees with the steps.** A run of checked parameters and settings
on priced candles reports what its steps come to. On fewer candles than the slow average needs this
is a balance that stays what it was, and in a run of any length nothing happens on so many candles:
there is no crossing, and no position is closed or opened. -/
theorem run_eq_fullReport (params : CrossoverParams) (settings : AccountSettings)
    (candles : List Candle) :
    (params.fault? = none → settings.fault? = none → (∀ c ∈ candles, c.isPriced = true) →
      ∀ first, candles.head? = some first →
        run candles params settings = .ok (fullReport params settings first candles) ∧
        (candles.length < params.slowPeriod →
          fullReport params settings first candles = idleReport settings first)) ∧
    (∀ first, (fullReport params settings first candles).trades =
      (outcomes params settings candles).filterMap (·.closed)) ∧
    ∀ o ∈ (outcomes params settings candles).take params.slowPeriod, o.IsQuiet := by
  refine ⟨fun hparams hsettings hpriced first hfirst => ⟨?_, fullReport_of_short first⟩,
    fun first => ?_, isQuiet_of_mem_take_outcomes candles⟩
  · exact run_eq_ok_iff.2 ⟨hparams, hsettings, hpriced, runValid_eq_result hfirst⟩
  · exact (filterMap_closed_outcomesFrom candles 0 _).symm

/-- The longest period that there is. -/
def longestCrossover : CrossoverParams := { slowPeriod := 18446744073709551615 }

theorem run_eq_fullReport_longest :
    longestCrossover.fault? = none ∧ (∀ c ∈ hourly 0 [10, 12, 9], c.isPriced = true) ∧
      (hourly 0 [10, 12, 9]).length < longestCrossover.slowPeriod ∧
      run (hourly 0 [10, 12, 9]) longestCrossover {} =
        .ok (idleReport {} ⟨⟨0, 0⟩, 10, 10, 10, 10, 1⟩) := by
  have hparams : longestCrossover.fault? = none := by rfl
  have hpriced : ∀ c ∈ hourly 0 [10, 12, 9], c.isPriced = true := by decide
  have hshort : (hourly 0 [10, 12, 9]).length < longestCrossover.slowPeriod := by decide
  obtain ⟨hrun, hidle⟩ := (run_eq_fullReport longestCrossover {} (hourly 0 [10, 12, 9])).1 hparams
    (by rfl) hpriced _ rfl
  rw [hidle hshort] at hrun
  exact ⟨hparams, hpriced, hshort, hrun⟩

/-- The candle at the index of the slow period can be the first to cross. -/
example : (outcomes quickCrossover {} (hourly 0 [10, 10, 12])).map (·.cross) =
    [none, none, some .golden] := by decide +kernel

end Simulation
end Backtest
