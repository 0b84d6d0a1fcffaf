import Backtest.Proofs.Number.Arithmetic
import Backtest.Proofs.Simulation.Ledger
import Backtest.Proofs.WalkForward.Records

/-!
# The score of a whole run

The equity curve of a replay and the curve stitched from its trades have the same balances, also
where the test part has no candle and the replay no curve at all. So the figures of all trades of a
run are those that a replay of them would have, in all but one: their robust score has the standard
coefficients, while the windows are searched and scored with those of the request.

## Main definitions

* `RunSummary.replay_equity_eq` — the curve of a replay, stitched from its trades.
* `Metrics.rescored` — figures with the robust score of other coefficients.
* `Metrics.compute_stitched` — a replay has the figures of its stitched curve.
* `overallMetrics_eq_rescored` — the figures of all trades of a run.
* `not_all_overallMetrics_own` — a run whose own coefficients do not reach them.
-/
namespace Backtest

namespace RunSummary

/-- Points of which each trade adds its profit to the one before are those stitched from the
trades. -/
theorem eq_balancesFrom {trades : List Trade} {points : List BalancePoint} {p : BalancePoint}
    (hlength : points.length = trades.length + 1) (hstart : points[0]? = some p)
    (hstep : ∀ (i : Nat) t, trades[i]? = some t → ∃ q, points[i]? = some q ∧
      points[i + 1]? = some ⟨t.exitTime, q.balance + t.pnlUsd⟩) :
    points = p :: balancesFrom p.balance trades := by
  -- The point that the next trade adds to moves along with the trades.
  induction trades generalizing points p with
  | nil =>
    obtain ⟨q, rfl⟩ := List.length_eq_one_iff.1 hlength
    cases hstart
    rfl
  | cons t rest ih =>
    obtain ⟨first, more, rfl⟩ := List.exists_cons_of_length_eq_add_one hlength
    cases hstart
    obtain ⟨q, hq, hnext⟩ := hstep 0 t rfl
    cases hq
    rw [balancesFrom, ih (Nat.succ.inj hlength) hnext fun i u hu => hstep (i + 1) u hu]

/-- The curve of a replay over candles, stitched from its trades. -/
theorem replay_equity_eq {candles : List Candle} {params : CrossoverParams}
    {settings : AccountSettings} {r : Replay} (h : Simulation.IsLedger candles params settings r) :
    ∃ first, candles.head? = some first ∧ r.equity =
      ⟨first.openTime, settings.initialBalance⟩ ::
        balancesFrom settings.initialBalance r.trades := by
  obtain ⟨first, hfirst, hstart⟩ := h.start
  refine ⟨first, hfirst, eq_balancesFrom h.length hstart fun i t ht => ?_⟩
  obtain ⟨point, hpoint, -, -, hnext⟩ := h.trade i t ht
  exact ⟨point, hpoint, hnext⟩

/-- The figures of all trades have the standard coefficients. -/
theorem overallMetrics_ofWindows (records : List WindowRecord) (objective : Objective)
    (initial : Float) : (ofWindows records objective initial).overallMetrics =
      .compute (testTrades records) (stitchedEquity records initial) initial {} := rfl

theorem testTrades_singleton (w : WindowRecord) : testTrades [w] = w.testTrades :=
  List.append_nil _

end RunSummary

namespace Metrics
open Binary64 Statistics

/-- Figures with the robust score of other coefficients. -/
def rescored (m : Metrics) (c : RobustScore) : Metrics :=
  { m with robustScore := orZero (c.score m.totalReturnPct m.maxDrawdownPct m.totalTrades) }

variable {trades : List Trade} {equity equity' : List BalancePoint} {initial : Float}
  {c : RobustScore}

/-- Only the robust score depends on the coefficients. -/
theorem rescored_compute (c' : RobustScore) :
    (compute trades equity initial c).rescored c' = compute trades equity initial c' := rfl

/-- Of a curve only the last balance and the decline matter. -/
theorem compute_congr
    (hlast : (equity.getLast?.map (·.balance)).getD (initial + sum (trades.map (·.pnlUsd))) =
      (equity'.getLast?.map (·.balance)).getD (initial + sum (trades.map (·.pnlUsd))))
    (hdrawdown : drawdownPct equity = drawdownPct equity') :
    compute trades equity initial c = compute trades equity' initial c := by
  rw [compute, compute, hdrawdown]
  cases h : equity.getLast? <;> cases h' : equity'.getLast? <;>
    simp only [h, h', Option.map_none, Option.map_some, Option.getD_none, Option.getD_some]
      at hlast ⊢ <;> rw [hlast]

/-- A curve of one balance above zero does not decline. -/
theorem drawdown_singleton (h : 0 < initial) : Drawdown.maximum [initial] = (0 : Float) := by
  change (Drawdown.step (0, 0) initial).2 = 0
  rw [Drawdown.step]
  simp only [if_pos h]
  exact if_neg fun hdrop => not_pos_percentChange_self h hdrop.2

/-- A replay has the figures of the curve stitched from its trades, wherever that starts. Without a
candle there is no other curve, and no figure tells the difference. -/
theorem compute_stitched {candles : List Candle} {params : CrossoverParams}
    {settings : AccountSettings} {r : Replay} (h : Simulation.run candles params settings = .ok r)
    (start : Instant) :
    compute r.trades r.equity settings.initialBalance c =
      compute r.trades (⟨start, settings.initialBalance⟩ ::
        RunSummary.balancesFrom settings.initialBalance r.trades) settings.initialBalance c := by
  by_cases hne : candles = []
  · -- The last balance is then the first one and an empty sum, which is the negative zero.
    have hpos := Simulation.initialBalance_pos_of_run h
    obtain ⟨-, -, -, rfl⟩ := Simulation.run_eq_ok_iff.1 h
    subst hne
    exact compute_congr (add_negZero hpos) (drawdown_singleton hpos).symm
  · obtain ⟨first, -, hequity⟩ := RunSummary.replay_equity_eq (Simulation.run_isLedger hne h)
    rw [hequity]
    refine compute_congr ?_ rfl
    rw [← List.getLast?_map, ← List.getLast?_map]
    rfl

end Metrics

namespace WalkForward

variable {request : Request} {series : CandleSeries} {stop : Interruption}

/-- The figures of a qualifying window that is alone in its run. -/
theorem overallMetrics_singleton {window : Window} {cancelled : Bool} {train test : List Candle}
    {space : SearchSpace} {w : WindowRecord} (objective : Objective)
    (h : windowRecord request space window cancelled .ready train test = .ok (some w))
    (hqualified : w.disqualified = false) :
    (RunSummary.ofWindows [w] objective request.simulation.initialBalance).overallMetrics =
      w.testMetrics.rescored {} := by
  obtain ⟨outcome, -, ⟨-, rfl⟩ | ⟨best, typed, replay, -, -, hrun, rfl⟩⟩ := windowRecord_eq_some h
  · cases hqualified
  · rw [RunSummary.overallMetrics_ofWindows, RunSummary.stitchedEquity,
      RunSummary.testTrades_singleton]
    exact (Metrics.compute_stitched hrun window.testStart).symm

/-- The test of a qualifying window is scored with the coefficients of the request. -/
theorem rescored_testMetrics {window : Window} {cancelled : Bool} {train test : List Candle}
    {space : SearchSpace} {w : WindowRecord}
    (h : windowRecord request space window cancelled .ready train test = .ok (some w))
    (hqualified : w.disqualified = false) :
    w.testMetrics.rescored request.robustScore = w.testMetrics := by
  obtain ⟨outcome, -, ⟨-, rfl⟩ | ⟨best, typed, replay, -, -, -, rfl⟩⟩ := windowRecord_eq_some h
  · cases hqualified
  · exact Metrics.rescored_compute request.robustScore

/-- The figures of all trades that a result keeps, with the coefficients of its request. -/
def ownFigures (request : Request) (r : RunResult) : Metrics :=
  .compute (RunSummary.testTrades r.windows) r.summary.equity request.simulation.initialBalance
    request.robustScore

/-- The figures of all trades of a run, stopped on the way or not, are its own with the robust score
of the standard coefficients, and so are those of a qualifying window that is alone. With the
standard coefficients both are the same. -/
theorem overallMetrics_eq_rescored {r : RunResult} (hkeep : request.includeTrades = true)
    (h : (runUntil request series stop).outcome = .ok r) :
    r.summary.equity =
        RunSummary.stitchedEquity r.windows request.simulation.initialBalance ∧
      r.summary.overallMetrics = (ownFigures request r).rescored {} ∧
      (∀ w, r.windows = [w] → w.disqualified = false →
        r.summary.overallMetrics = w.testMetrics.rescored {}) ∧
      (request.robustScore = {} → r.summary.overallMetrics = ownFigures request r ∧
        ∀ w, r.windows = [w] → w.disqualified = false →
          r.summary.overallMetrics = w.testMetrics) := by
  obtain ⟨space, ws, records, status, -, -, hrecords, rfl⟩ := exists_records_of_runUntil h
  have hwindows : (result request ws.length status records).windows = records := if_pos hkeep
  have hown : (result request ws.length status records).summary.overallMetrics =
      (ownFigures request (result request ws.length status records)).rescored {} := by
    rw [ownFigures, Metrics.rescored_compute, hwindows]
    rfl
  have hsingle : ∀ w, (result request ws.length status records).windows = [w] →
      w.disqualified = false →
        (result request ws.length status records).summary.overallMetrics =
          w.testMetrics.rescored {} ∧
        w.testMetrics.rescored request.robustScore = w.testMetrics := by
    intro w hw hqualified
    obtain rfl := hwindows.symm.trans hw
    obtain ⟨cancelled, hmade⟩ := hrecords.made w List.mem_cons_self
    exact ⟨overallMetrics_singleton request.objective hmade hqualified,
      rescored_testMetrics hmade hqualified⟩
  refine ⟨by rw [hwindows]; rfl, hown, fun w hw hq => (hsingle w hw hq).1, fun hstandard => ?_⟩
  refine ⟨?_, ?_⟩
  · rw [hown, ← hstandard]
    exact Metrics.rescored_compute request.robustScore
  · intro w hw hq
    obtain ⟨hoverall, hscore⟩ := hsingle w hw hq
    rw [hoverall, ← hstandard, hscore]

/-- A day of training and a day of test, once, with twice the penalty for few trades. -/
def harsh : Request := { threeDays with stop := ⟨172800, 0⟩, robustScore := { tradePenalty := 20 } }

/-- One window with one trade, scored with the standard coefficients in the end. -/
theorem overallMetrics_eq_rescored_harsh :
    harsh.includeTrades = true ∧ ∃ r w,
      (runUntil harsh steadyDays (.constant false)).outcome = .ok r ∧ r.windows = [w] ∧
      w.disqualified = false ∧ w.testTradeCount = 1 ∧
      r.summary.equity = RunSummary.stitchedEquity r.windows harsh.simulation.initialBalance ∧
      r.summary.overallMetrics = (ownFigures harsh r).rescored {} ∧
      r.summary.overallMetrics = w.testMetrics.rescored {} := by
  have hkeep : harsh.includeTrades = true := rfl
  have hrun : ((runUntil harsh steadyDays (.constant false)).outcome.toOption.map fun r =>
      r.windows.map fun w => (w.disqualified, w.testTradeCount)) = some [(false, 1)] := by
    decide +kernel
  obtain ⟨r, hr, hwindows⟩ := exists_of_toOption_map hrun
  obtain ⟨w, hw, hfound⟩ := List.map_eq_singleton_iff.1 hwindows
  obtain ⟨hqualified, hcount⟩ := Prod.mk.inj hfound
  obtain ⟨hequity, hoverall, hsingle, -⟩ := overallMetrics_eq_rescored hkeep hr
  exact ⟨hkeep, r, w, hr, hw, hqualified, hcount, hequity, hoverall, hsingle w hw hqualified⟩

/-- The coefficients of a request do not reach the figures of all its trades. -/
theorem not_all_overallMetrics_own :
    ¬ ∀ (request : Request) (series : CandleSeries) (r : RunResult),
      request.includeTrades = true → (run request series false).outcome = .ok r →
        r.summary.overallMetrics = ownFigures request r := by
  intro hall
  have hscores : ((run harsh steadyDays false).outcome.toOption.map fun r =>
      decide (r.summary.overallMetrics.robustScore.toBits =
        (ownFigures harsh r).robustScore.toBits)) = some false := by
    decide +kernel
  obtain ⟨r, hr, hscores⟩ := exists_of_toOption_map hscores
  refine of_decide_eq_false hscores ?_
  rw [hall harsh steadyDays r rfl hr]

end WalkForward
end Backtest
