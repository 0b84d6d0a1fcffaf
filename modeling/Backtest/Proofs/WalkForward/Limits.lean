import Backtest.Proofs.Performance.Objectives
import Backtest.Proofs.Search.Ranking
import Backtest.Proofs.WalkForward.Records
import Backtest.Proofs.WalkForward.Validation

/-!
# Guardrails of checked requests

The figures that the guardrails look at are numbers, so a candidate is ranked if and only if none of
them is beyond its limit. A limit can be NaN: the checks of a request refuse what is at most zero,
and NaN is not, so that it passes them and then nothing is beyond it. Any other limit of a checked
request is above zero and binds every candidate that is ranked, and with these the best one of each
window.

## Main definitions

* `Guardrails.Keeps` — figures within limits, as far as these are numbers.
* `Guardrails.check_eq_none_iff` — the guardrails look for exactly that.
* `Request.limits_bind` — the limits of a checked request bind its searches and its runs.
* `Request.not_all_limits_bind` — a limit that is NaN does not.
-/
namespace Backtest

namespace Metrics
open Statistics

variable {trades : List Trade} {equity : List BalancePoint} {initial : Float} {robust : RobustScore}

theorem isNaN_maxDrawdownPct :
    (compute trades equity initial robust).maxDrawdownPct.isNaN = false := isNaN_orZero _

theorem isNaN_largestWinShare {share : Float}
    (h : (compute trades equity initial robust).largestWinShare = some share) :
    share.isNaN = false := by
  change largestWin? trades _ = some share at h
  rw [largestWin?] at h
  split at h
  · cases h
  · exact (finite?_eq_some h).2

end Metrics

namespace Guardrails
open Binary64

/-- Figures that keep the limits, of which those that are NaN are none. -/
structure Keeps (g : Guardrails) (m : Metrics) : Prop where
  trades : g.minTrades ≤ m.totalTrades
  drawdown : g.maxDrawdownPct.isNaN = true ∨ m.maxDrawdownPct ≤ g.maxDrawdownPct
  share : ∀ share, m.largestWinShare = some share →
    g.lotteryTradeThreshold.isNaN = true ∨ share ≤ g.lotteryTradeThreshold

/-- Figures that are numbers pass if they keep the limits. -/
theorem check_eq_none_iff {g : Guardrails} {m : Metrics}
    (hdrawdown : m.maxDrawdownPct.isNaN = false)
    (hshare : ∀ share, m.largestWinShare = some share → share.isNaN = false) :
    g.check m = none ↔ g.Keeps m := by
  rw [check]
  split
  · rename_i hfew
    exact ⟨fun h => (nomatch h), fun h => absurd hfew (Nat.not_lt.2 h.trades)⟩
  · rename_i hmany
    split
    · rename_i hdeep
      exact ⟨fun h => (nomatch h), fun h => absurd hdeep ((not_lt_iff hdrawdown).2 h.drawdown)⟩
    · rename_i hshallow
      replace hshallow := (not_lt_iff hdrawdown).1 hshallow
      split
      · rename_i share hsome
        have hnan := hshare share hsome
        split
        · rename_i hlottery
          refine ⟨fun h => (nomatch h), fun h => absurd hlottery ?_⟩
          exact (not_lt_iff hnan).2 (h.share share hsome)
        · rename_i hfair
          refine ⟨fun _ => ⟨Nat.not_lt.1 hmany, hshallow, fun x hx => ?_⟩, fun _ => rfl⟩
          rw [hsome] at hx
          cases hx
          exact (not_lt_iff hnan).1 hfair
      · rename_i hnone
        refine ⟨fun _ => ⟨Nat.not_lt.1 hmany, hshallow, fun x hx => ?_⟩, fun _ => rfl⟩
        rw [hnone] at hx
        cases hx

end Guardrails

/-- Findings whose ranking is decided by limits. -/
structure SearchFindings.IsWithin (g : Guardrails) (found : SearchFindings) : Prop where
  ranked_iff : ∀ c ∈ found.ranked ++ found.disqualified, c ∈ found.ranked ↔ g.Keeps c.metrics
  best : ∀ c, found.best? = some c → g.Keeps c.metrics

namespace Search

/-- Every search keeps the guardrails of its plan. -/
theorem isWithin_of_run {candles : List Candle} {space : SearchSpace} {base : ParamSet}
    {plan : SearchPlan} {window : Nat} {cancelled : Bool} {pool : WorkerPool}
    {found : SearchFindings} (h : run candles space base plan window cancelled pool = .ok found) :
    found.IsWithin plan.guardrails := by
  obtain ⟨-, indices, -, htry⟩ := run_eq_ok_iff.1 h
  have hconserves := conserves_tryAll htry
  have hranked : ∀ c ∈ found.ranked ++ found.disqualified,
      c ∈ found.ranked ↔ plan.guardrails.Keeps c.metrics := by
    intro c hc
    obtain ⟨typed, result, -, -, hmetrics, -⟩ := hconserves.outcome c hc
    rw [hconserves.eligible c hc, hmetrics]
    exact Guardrails.check_eq_none_iff Metrics.isNaN_maxDrawdownPct
      fun share => Metrics.isNaN_largestWinShare
  refine ⟨hranked, fun c hc => ?_⟩
  have hmem : c ∈ found.ranked := List.mem_of_head? hc
  exact (hranked c (List.mem_append_left _ hmem)).1 hmem

end Search

namespace WalkForward

variable {request : Request} {space : SearchSpace} {cancelled : Bool} {pool : WorkerPool}
  {pools : Nat → WorkerPool}

/-- The training figures of a record keep the guardrails. -/
theorem keeps_of_windowRecord {window : Window} {train test : List Candle} {r : WindowRecord}
    (h : windowRecord request space window cancelled pool train test = .ok (some r)) {m : Metrics}
    (hm : r.trainMetrics = some m) : request.guardrails.Keeps m := by
  obtain ⟨found, hsearch, ⟨-, rfl⟩ | ⟨best, typed, replay, hbest, -, -, rfl⟩⟩ :=
    windowRecord_eq_some h
  · cases hm
  · cases hm
    exact (Search.isWithin_of_run hsearch).best best hbest

@[simp] theorem trainMetrics_kept (x : WindowRecord) :
    (kept request x).trainMetrics = x.trainMetrics := by
  rw [kept_eq]

theorem keeps_of_run {series : CandleSeries} {result : RunResult}
    (h : (run request series cancelled pools).outcome = .ok result) :
    ∀ r ∈ result.windows, ∀ m, r.trainMetrics = some m → request.guardrails.Keeps m := by
  obtain ⟨space, ws, status, -, -, -, rfl⟩ := run_outcome_eq_ok h
  intro r hr m hm
  rw [windows_result] at hr
  obtain ⟨x, hx, rfl⟩ := List.mem_map.1 hr
  obtain ⟨_, hrecord⟩ := (recordsIn_runWindows _ _ _ _ _).made x hx
  rw [trainMetrics_kept] at hm
  exact keeps_of_windowRecord hrecord hm

end WalkForward

namespace Request
open Binary64

variable {c : Request} {space : SearchSpace}

/-- A limit that the checks let pass is NaN or above zero. -/
theorem IsChecked.limits (h : c.IsChecked space) :
    (c.guardrails.maxDrawdownPct.isNaN = true ∨ 0 < c.guardrails.maxDrawdownPct) ∧
      (c.guardrails.lotteryTradeThreshold.isNaN = true ∨
        0 < c.guardrails.lotteryTradeThreshold) := by
  have hzero : (0 : Float).isNaN = false := by decide +kernel
  have hsearch := h.search
  rw [searchFault?] at hsearch
  split at hsearch
  · cases hsearch
  · split at hsearch
    · cases hsearch
    · split at hsearch
      · cases hsearch
      · rename_i hdrawdown
        split at hsearch
        · cases hsearch
        · rename_i hlottery
          exact ⟨(not_le_iff hzero).1 hdrawdown, (not_le_iff hzero).1 hlottery⟩

/-- **The limits of a checked request bind unless they are NaN.** They do so for every slice of
candles and every window, whatever the workers, and for all records of a run. -/
theorem limits_bind (h : c.validate = .ok ()) :
    (c.guardrails.maxDrawdownPct.isNaN = true ∨ 0 < c.guardrails.maxDrawdownPct) ∧
      (c.guardrails.lotteryTradeThreshold.isNaN = true ∨ 0 < c.guardrails.lotteryTradeThreshold) ∧
      (∃ space, SearchSpace.ofRanges c.paramRanges = .ok space ∧
        ∀ (train : List Candle) (window : Nat) (cancelled : Bool) (pool : WorkerPool)
          (found : SearchFindings),
          Search.run train space c.baseParams c.searchPlan window cancelled pool = .ok found →
            found.IsWithin c.guardrails) ∧
      ∀ (series : CandleSeries) (cancelled : Bool) (pools : Nat → WorkerPool) (result : RunResult),
        (WalkForward.run c series cancelled pools).outcome = .ok result →
          ∀ r ∈ result.windows, ∀ m, r.trainMetrics = some m → c.guardrails.Keeps m := by
  obtain ⟨space, hchecked⟩ := validate_eq_ok_iff.1 h
  obtain ⟨hdrawdown, hlottery⟩ := hchecked.limits
  exact ⟨hdrawdown, hlottery,
    ⟨space, hchecked.axes, fun train window cancelled pool found => Search.isWithin_of_run⟩,
    fun series cancelled pools result => WalkForward.keeps_of_run⟩

/-- In three days with the limit of half the balance no window selects a candidate that lost
more. -/
theorem limits_bind_threeDays :
    WalkForward.threeDays.validate = .ok () ∧ WalkForward.threeDays.guardrails.maxDrawdownPct = 50 ∧
      ∃ result, (WalkForward.run WalkForward.threeDays WalkForward.steadyDays false).outcome =
          .ok result ∧
        ∀ r ∈ result.windows, ∀ m, r.trainMetrics = some m → m.maxDrawdownPct ≤ 50 := by
  obtain ⟨⟨⟩, hvalid⟩ :=
    exists_eq_ok (show WalkForward.threeDays.validate.isOk = true by decide +kernel)
  obtain ⟨result, hrun⟩ := exists_eq_ok (show
    (WalkForward.run WalkForward.threeDays WalkForward.steadyDays false).outcome.isOk = true by
      decide +kernel)
  refine ⟨hvalid, rfl, result, hrun, fun r hr m hm => ?_⟩
  have hkeeps := (limits_bind hvalid).2.2.2 WalkForward.steadyDays false _ result hrun r hr m hm
  exact hkeeps.drawdown.resolve_left (by decide +kernel)

/-- The same three days with NaN for the largest drawdown. -/
def uncappedDays : Request :=
  { WalkForward.threeDays with
    guardrails := { minTrades := 0, maxDrawdownPct := nan, lotteryTradeThreshold := 2 } }

/-- Its one candidate is ranked though it lost a fourth of the balance. -/
theorem ranked_uncappedDays :
    ∃ found m, Search.run Search.riseAndFall ⟨[]⟩ uncappedDays.baseParams uncappedDays.searchPlan 0
        false = .ok found ∧
      m ∈ found.ranked ∧ 25 < m.metrics.maxDrawdownPct := by
  obtain ⟨found, hrun⟩ := exists_eq_ok (show (Search.run Search.riseAndFall ⟨[]⟩
    uncappedDays.baseParams uncappedDays.searchPlan 0 false).isOk = true by decide +kernel)
  have hsorted : (Search.contenders Search.riseAndFall ⟨[]⟩ uncappedDays.baseParams
      uncappedDays.searchPlan [0]).Pairwise fun a b => (Candidate.betterFirst a b).isLE = true := by
    decide +kernel
  have hdeep : (Search.contenders Search.riseAndFall ⟨[]⟩ uncappedDays.baseParams
      uncappedDays.searchPlan [0]).map (fun m => decide (25 < m.metrics.maxDrawdownPct)) =
        [true] := by decide +kernel
  have hranked := Search.ranked_eq_contenders hrun rfl hsorted
  obtain ⟨m, rest, hlist, hloss, -⟩ := List.map_eq_cons_iff.1 hdeep
  exact ⟨found, m, hrun, by rw [hranked]; exact hlist ▸ List.mem_cons_self, of_decide_eq_true hloss⟩

/-- A limit that is NaN passes the checks and binds nothing. -/
theorem not_all_limits_bind :
    ¬ ∀ {c : Request} {space : SearchSpace} {train : List Candle} {window : Nat} {cancelled : Bool}
        {found : SearchFindings}, c.validate = .ok () →
        SearchSpace.ofRanges c.paramRanges = .ok space →
        Search.run train space c.baseParams c.searchPlan window cancelled = .ok found →
          ∀ m ∈ found.ranked, m.metrics.maxDrawdownPct ≤ c.guardrails.maxDrawdownPct := by
  intro hall
  obtain ⟨⟨⟩, hvalid⟩ := exists_eq_ok (show uncappedDays.validate.isOk = true by decide +kernel)
  obtain ⟨found, m, hrun, hm, -⟩ := ranked_uncappedDays
  have hle := hall hvalid rfl hrun m hm
  exact absurd (isNaN_of_le hle).2 (by decide +kernel)

end Request
end Backtest
