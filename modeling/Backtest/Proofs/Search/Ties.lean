import Backtest.Proofs.Performance.Objectives
import Backtest.Proofs.Search.Ranking
import Backtest.Proofs.Simulation.Replay

/-!
# Ties

Of two candidates the one with the larger objective comes first, of two equal ones that with more
trades, and after that the parameters decide. The ranking compares objectives in the total order of
doubles, where the two zeros are different places, so the rule for ties does not reach a pair of
zeros of opposite signs. A profit factor makes such pairs: it is the negative zero for losses alone
and the positive zero without a trade. No return, robust score or share of wins is the negative
zero, and for these the rule holds without an exception.

## Main definitions

* `Candidate.FollowsTieRule` — the rule for two candidates.
* `Candidate.SplitsZero` — the pairs that it does not reach.
* `Search.run_followsTieRule_or_splitsZero` — a ranking follows the rule on all other pairs.
-/
namespace Backtest

namespace Candidate
open Binary64

/-- The first of two candidates is ranked as the rule says. Objectives are equal in value if each is
at most the other. -/
structure FollowsTieRule (a b : Candidate) : Prop where
  objective : b.objective ≤ a.objective
  trades : a.objective ≤ b.objective → b.metrics.totalTrades ≤ a.metrics.totalTrades
  params : a.objective ≤ b.objective → a.metrics.totalTrades = b.metrics.totalTrades →
    (ParamSet.compare a.params b.params).isLE = true

/-- The objectives of two candidates are the two zeros, the positive one first. -/
structure SplitsZero (o : Objective) (a b : Candidate) : Prop where
  first : a.objective = 0
  second : b.objective = -0.0
  /-- The objective is one that can be the negative zero. -/
  cause : o.MayBeNegZero b.metrics

theorem SplitsZero.objective {o : Objective} {a b : Candidate} (h : SplitsZero o a b) :
    b.objective ≤ a.objective := by
  rw [h.first, h.second]
  decide +kernel

theorem followsTieRule_or_zeros {a b : Candidate} (h : (betterFirst a b).isLE = true)
    (ha : a.objective.isNaN = false) (hb : b.objective.isNaN = false) :
    FollowsTieRule a b ∨ (a.objective = 0 ∧ b.objective = -0.0) := by
  rw [betterFirst, Ordering.isLE_then_iff_or] at h
  rcases h with hless | ⟨hequal, hrest⟩
  -- A step in the total order is a step in value, unless it is the one between the zeros.
  · have hkey : orderKey b.objective < orderKey a.objective := Int.compare_eq_lt.1 hless
    have hle := place_le_of_orderKey_le (Int.le_of_lt hkey)
    by_cases hvalue : place a.objective ≤ place b.objective
    · exact .inr (zeros_of_orderKey_lt hkey hvalue).symm
    · have hgreater : ¬ a.objective ≤ b.objective := by rwa [le_iff_place ha hb]
      exact .inl ⟨(le_iff_place hb ha).2 hle, fun h => absurd h hgreater,
        fun h => absurd h hgreater⟩
  · have hobjective : b.objective = a.objective := eq_of_orderKey_eq (Int.compare_eq_eq.1 hequal)
    rw [Ordering.isLE_then_iff_or, Nat.compare_eq_lt, Nat.compare_eq_eq] at hrest
    refine .inl ⟨by rw [hobjective]; exact le_refl ha, fun _ => by omega, fun _ htrades => ?_⟩
    rcases hrest with hmore | ⟨-, hparams⟩
    · omega
    · exact hparams

variable {candles : List Candle} {plan : SearchPlan} {c : Candidate}

/-- The figures of an outcome are those of trades of which no candle closed more than one. -/
theorem IsOutcome.figures (h : c.IsOutcome candles plan) :
    ∃ (trades : List Trade) (equity : List BalancePoint), trades.length ≤ candles.length ∧
      0 < plan.settings.initialBalance ∧
      c.metrics = Metrics.compute trades equity plan.settings.initialBalance plan.robust ∧
      c.objective = plan.objective.extract
        (Metrics.compute trades equity plan.settings.initialBalance plan.robust) := by
  obtain ⟨typed, result, -, hrun, hmetrics, hobjective, -⟩ := h
  rw [hmetrics] at hobjective
  exact ⟨result.trades, result.equity, Simulation.length_trades_le_of_run hrun,
    Simulation.initialBalance_pos_of_run hrun, hmetrics, hobjective⟩

theorem IsOutcome.isNaN_objective (h : c.IsOutcome candles plan)
    (hlength : candles.length < 2 ^ 64) :
    c.objective.isNaN = false := by
  obtain ⟨trades, equity, hle, -, -, hobjective⟩ := h.figures
  rw [hobjective]
  exact plan.objective.isNaN_extract (Nat.lt_of_le_of_lt hle hlength)

theorem IsOutcome.mayBeNegZero (h : c.IsOutcome candles plan) (hlength : candles.length < 2 ^ 64)
    (hzero : c.objective = -0.0) : plan.objective.MayBeNegZero c.metrics := by
  obtain ⟨trades, equity, hle, hinitial, hmetrics, hobjective⟩ := h.figures
  rw [hmetrics]
  exact Objective.mayBeNegZero_of_extract hinitial (Nat.lt_of_le_of_lt hle hlength)
    (hobjective.symm.trans hzero)

theorem IsOutcome.profitFactor_eq_negZero_iff (h : c.IsOutcome candles plan)
    (hplan : plan.objective = .profitFactor) :
    c.objective = -0.0 ↔ c.metrics.winningTrades = 0 ∧ c.metrics.losingTrades ≠ 0 := by
  obtain ⟨trades, equity, -, -, hmetrics, hobjective⟩ := h.figures
  rw [hobjective, hmetrics, hplan]
  exact Objective.extract_profitFactor_eq_negZero_iff

end Candidate

namespace Search
open Candidate

variable {candles : List Candle} {space : SearchSpace} {base : ParamSet} {plan : SearchPlan}
  {window : Nat} {cancelled : Bool} {pool : WorkerPool} {found : SearchFindings}

/-- The ranked candidates of a search are outcomes, from best to worst. -/
theorem ranked_of_run (h : run candles space base plan window cancelled pool = .ok found) :
    (∀ c ∈ found.ranked, c.IsOutcome candles plan) ∧
      found.ranked.Pairwise fun a b => (betterFirst a b).isLE = true := by
  obtain ⟨-, indices, -, htry⟩ := run_eq_ok_iff.1 h
  have hconserves := conserves_tryAll htry
  obtain ⟨-, -, rfl⟩ := tryAll_eq_ok_iff.1 htry
  exact ⟨fun c hc => hconserves.outcome c (List.mem_append_left _ hc), pairwise_ranked _⟩

/-- **A ranking follows the rule for ties except where the two zeros meet.** No candidate stands
before one with a larger objective. The negative zeros of a profit factor are those of losses
alone. -/
theorem run_followsTieRule_or_splitsZero (hlength : candles.length < 2 ^ 64)
    (h : run candles space base plan window cancelled pool = .ok found) :
    (found.ranked.Pairwise fun a b => b.objective ≤ a.objective) ∧
      (found.ranked.Pairwise fun a b => FollowsTieRule a b ∨ SplitsZero plan.objective a b) ∧
      (plan.objective = .profitFactor → ∀ c ∈ found.ranked,
        c.objective = -0.0 ↔ c.metrics.winningTrades = 0 ∧ c.metrics.losingTrades ≠ 0) := by
  obtain ⟨houtcome, hranked⟩ := ranked_of_run h
  have hpairs : found.ranked.Pairwise fun a b =>
      FollowsTieRule a b ∨ SplitsZero plan.objective a b := by
    refine hranked.imp_of_mem fun {a b} ha hb hab => ?_
    have hb := houtcome b hb
    rcases followsTieRule_or_zeros hab ((houtcome a ha).isNaN_objective hlength)
      (hb.isNaN_objective hlength) with hrule | ⟨hfirst, hsecond⟩
    · exact .inl hrule
    · exact .inr ⟨hfirst, hsecond, hb.mayBeNegZero hlength hsecond⟩
  exact ⟨hpairs.imp fun h => h.elim (·.objective) (·.objective), hpairs,
    fun hplan c hc => (houtcome c hc).profitFactor_eq_negZero_iff hplan⟩

/-- A slow period that does not get warm and one that does. -/
def idleThenQuick : SearchSpace := ⟨[("slow_period", .list [.int 50, .int 2])]⟩

/-- A search for the best profit factor that leaves out nothing. -/
def profitPlan : SearchPlan :=
  { objective := .profitFactor
    guardrails := { minTrades := 0, maxDrawdownPct := 100, lotteryTradeThreshold := 1 } }

/-- The candidate that does not trade is ranked above the one that makes a loss, though both have no
profit and the other has more trades. -/
theorem ranked_idleThenQuick :
    ∃ found idle losing, run riseAndFall idleThenQuick quickBase profitPlan 0 false = .ok found ∧
      found.ranked = [idle, losing] ∧
      idle.objective = 0 ∧ idle.metrics.totalTrades = 0 ∧
      losing.objective = -0.0 ∧ losing.metrics.totalTrades = 1 := by
  have hok : (run riseAndFall idleThenQuick quickBase profitPlan 0 false).isOk = true := by
    decide +kernel
  obtain ⟨found, hrun⟩ := exists_eq_ok hok
  have hsorted : (contenders riseAndFall idleThenQuick quickBase profitPlan [0, 1]).Pairwise
      fun a b => (betterFirst a b).isLE = true := by decide +kernel
  have hranked := ranked_eq_contenders hrun rfl hsorted
  have hfigures : (contenders riseAndFall idleThenQuick quickBase profitPlan [0, 1]).map
      (fun c => (c.objective.toBits.toNat, c.metrics.totalTrades)) =
        [(0, 0), (9223372036854775808, 1)] := by decide +kernel
  obtain ⟨idle, rest, hlist, hidle, hrest⟩ := List.map_eq_cons_iff.1 hfigures
  obtain ⟨losing, rest, rfl, hlosing, hrest⟩ := List.map_eq_cons_iff.1 hrest
  rw [List.map_eq_nil_iff.1 hrest] at hlist
  obtain ⟨hidle, hno⟩ := Prod.mk.inj hidle
  obtain ⟨hlosing, hone⟩ := Prod.mk.inj hlosing
  exact ⟨found, idle, losing, hrun, hranked.trans hlist,
    Binary64.eq_of_toBits_eq (hidle.trans Binary64.toBits_zero.symm), hno,
    Binary64.eq_of_toBits_eq (hlosing.trans Binary64.toBits_negZero.symm), hone⟩

/-- The two zeros meet in the ranking of two candidates. -/
theorem run_followsTieRule_or_splitsZero_idleThenQuick :
    riseAndFall.length < 2 ^ 64 ∧
      ∃ found idle losing, run riseAndFall idleThenQuick quickBase profitPlan 0 false = .ok found ∧
        found.ranked = [idle, losing] ∧ SplitsZero .profitFactor idle losing ∧
        losing.metrics.winningTrades = 0 ∧ losing.metrics.losingTrades ≠ 0 := by
  obtain ⟨found, idle, losing, hrun, hranked, hzero, hno, hnegZero, hone⟩ := ranked_idleThenQuick
  have hlength : riseAndFall.length < 2 ^ 64 := by decide
  obtain ⟨-, hpairs, hfactor⟩ := run_followsTieRule_or_splitsZero hlength hrun
  have hlosing : losing ∈ found.ranked := by simp [hranked]
  rw [hranked, List.pairwise_pair] at hpairs
  refine ⟨hlength, found, idle, losing, hrun, hranked, ?_, (hfactor rfl losing hlosing).1 hnegZero⟩
  rcases hpairs with hrule | hsplit
  · have := hrule.trades (by rw [hzero, hnegZero]; decide +kernel)
    omega
  · exact hsplit

/-- The rule does not hold of all rankings. -/
theorem not_all_followTieRule :
    ¬ ∀ {candles : List Candle} {space : SearchSpace} {base : ParamSet} {plan : SearchPlan}
        {window : Nat} {cancelled : Bool} {found : SearchFindings},
        run candles space base plan window cancelled = .ok found →
          found.ranked.Pairwise FollowsTieRule := by
  intro hall
  obtain ⟨found, idle, losing, hrun, hranked, hzero, hno, hnegZero, hone⟩ := ranked_idleThenQuick
  have hpairs := hall hrun
  rw [hranked, List.pairwise_pair] at hpairs
  have := hpairs.trades (by rw [hzero, hnegZero]; decide +kernel)
  omega

end Search
end Backtest
