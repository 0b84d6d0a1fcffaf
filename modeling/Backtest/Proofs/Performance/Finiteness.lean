import Backtest.Proofs.Number.Finite
import Backtest.Proofs.Performance.Objectives

/-!
# Which figures are finite

Trades may have any doubles for their profits, and sums of them may overflow. A figure that is
replaced by zero, or left out, where it is not finite is finite whatever the trades are, and a share
of trades is a quotient of two counts. Only the gross profit and the gross loss are reported as they
are summed up. They are never NaN, as they are sums of doubles above zero, but they can be infinite,
also if no trade is.

## Main definitions

* `Metrics.IsFinite` — all figures are finite.
* `Metrics.isFinite_winShare` — the share of profitable trades.
* `Metrics.isFinite_totalProfit_or`, `Metrics.isFinite_totalLoss_or` — the gross figures.
* `Metrics.compute_isFinite_or_overflows` — all figures of any trades.
* `Metrics.not_all_isFinite` — two finite trades with an infinite gross profit.
-/
namespace Backtest

namespace Statistics

@[simp] theorem isFinite_orZero (x : Float) : (orZero x).isFinite = true := by
  rw [orZero]
  split
  · assumption
  · decide +kernel

theorem isFinite_of_finite?_eq_some {x y : Float} (h : finite? x = some y) :
    y.isFinite = true := by
  rw [finite?] at h
  split at h
  · rename_i hfinite
    cases h
    exact hfinite
  · cases h

/-- A sum of doubles above zero is finite or infinity. -/
theorem isFinite_sum_or {xs : List Float} (h : ∀ x ∈ xs, 0 < x) :
    (sum xs).isFinite = true ∨ sum xs = Binary64.infinity := by
  by_cases hne : xs = []
  · subst hne
    exact .inl (by decide +kernel)
  · exact Binary64.isFinite_or_eq_infinity (Binary64.pos_iff_reaches.1 (sum_pos h hne)).hasSign

end Statistics

namespace Metrics
open Binary64 Statistics

variable {trades : List Trade}

/-- Every figure is finite, whatever the gross profit and the gross loss are. -/
structure IsFiniteButGross (m : Metrics) : Prop where
  totalReturnPct : m.totalReturnPct.isFinite = true
  winRate : m.winRate.isFinite = true
  profitFactor : ∀ x, m.profitFactor = some x → x.isFinite = true
  maxDrawdownPct : m.maxDrawdownPct.isFinite = true
  sharpeLikeRatio : m.sharpeLikeRatio.isFinite = true
  robustScore : m.robustScore.isFinite = true
  netProfitUsd : m.netProfitUsd.isFinite = true
  finalBalance : m.finalBalance.isFinite = true
  avgTradePct : m.avgTradePct.isFinite = true
  largestWinShare : ∀ x, m.largestWinShare = some x → x.isFinite = true

/-- Every figure is finite. -/
structure IsFinite (m : Metrics) : Prop extends m.IsFiniteButGross where
  grossProfitUsd : m.grossProfitUsd.isFinite = true
  grossLossUsd : m.grossLossUsd.isFinite = true

theorem isFinite_winShare (h : trades.length < 2 ^ 64) : (winShare trades).isFinite = true := by
  rw [winShare]
  split
  · decide +kernel
  · rename_i hne
    have hcount : trades.countP Trade.isProfitable < 2 ^ 64 :=
      Nat.lt_of_le_of_lt List.countP_le_length h
    exact isFinite_div_ofNat hcount (by simpa [List.isEmpty_iff] using hne)

theorem isFinite_of_profitRatio? {profit loss x : Float} (h : profitRatio? profit loss = some x) :
    x.isFinite = true := by
  rw [profitRatio?] at h
  split at h
  · cases h
  · exact isFinite_of_finite?_eq_some h

theorem isFinite_of_largestWin? {net x : Float} (h : largestWin? trades net = some x) :
    x.isFinite = true := by
  rw [largestWin?] at h
  split at h
  · cases h
  · exact isFinite_of_finite?_eq_some h

theorem isFinite_totalProfit_or (trades : List Trade) :
    (totalProfit trades).isFinite = true ∨ totalProfit trades = infinity := by
  refine isFinite_sum_or fun p hp => ?_
  simpa using (List.mem_filter.1 hp).2

theorem isFinite_totalLoss_or (trades : List Trade) :
    (totalLoss trades).isFinite = true ∨ totalLoss trades = infinity := by
  refine isFinite_sum_or fun p hp => ?_
  obtain ⟨loss, hloss, rfl⟩ := List.mem_map.1 hp
  exact abs_pos (by simpa using (List.mem_filter.1 hloss).2)

theorem isFiniteButGross_compute (equity : List BalancePoint) (initial : Float)
    (robust : RobustScore) (h : trades.length < 2 ^ 64) :
    (compute trades equity initial robust).IsFiniteButGross where
  totalReturnPct := isFinite_orZero _
  winRate := isFinite_winShare h
  profitFactor := fun _ hx => isFinite_of_profitRatio? hx
  maxDrawdownPct := isFinite_orZero _
  sharpeLikeRatio := isFinite_orZero _
  robustScore := isFinite_orZero _
  netProfitUsd := isFinite_orZero _
  finalBalance := isFinite_orZero _
  avgTradePct := isFinite_orZero _
  largestWinShare := fun _ hx => isFinite_of_largestWin? hx

/-- All figures of any trades are finite, unless the gross profit or the gross loss is infinity, and
then the others still are. -/
theorem compute_isFinite_or_overflows (trades : List Trade) (equity : List BalancePoint)
    (initial : Float) (robust : RobustScore) (h : trades.length < 2 ^ 64) :
    (compute trades equity initial robust).IsFiniteButGross ∧
      ((compute trades equity initial robust).IsFinite ∨
        (compute trades equity initial robust).grossProfitUsd = infinity ∨
        (compute trades equity initial robust).grossLossUsd = infinity) := by
  have hfinite := isFiniteButGross_compute equity initial robust h
  refine ⟨hfinite, ?_⟩
  rcases isFinite_totalProfit_or trades with hprofit | hprofit
  · rcases isFinite_totalLoss_or trades with hloss | hloss
    · exact .inl ⟨hfinite, hprofit, hloss⟩
    · exact .inr (.inr hloss)
  · exact .inr (.inl hprofit)

/-- A trade with a profit near the greatest double. -/
def windfall : Trade where
  side := .long
  entryTime := ⟨0, 0⟩
  entryPrice := 1
  entryIndex := 0
  exitTime := ⟨3600, 0⟩
  exitPrice := 2
  exitIndex := 1
  exitReason := .takeProfit
  quantity := 1e308
  fee := 0
  pnlUsd := 1e308
  pnlPct := 100
  candlesHeld := 1

/-- The figures of one such trade are finite; two have an infinite gross profit, and else finite
figures. -/
theorem compute_isFinite_or_overflows_windfall :
    (compute [windfall] [] 100 {}).IsFinite ∧
      (compute [windfall, windfall] [] 100 {}).grossProfitUsd = infinity ∧
      (compute [windfall, windfall] [] 100 {}).IsFiniteButGross := by
  obtain ⟨-, hone⟩ := compute_isFinite_or_overflows [windfall] [] 100 {} (by decide)
  obtain ⟨hothers, htwo⟩ := compute_isFinite_or_overflows [windfall, windfall] [] 100 {} (by decide)
  have hinfinity : ¬ infinity.isFinite = true := by decide +kernel
  refine ⟨hone.resolve_right ?_, ?_, hothers⟩
  · have hprofit : (compute [windfall] [] 100 {}).grossProfitUsd.isFinite = true := by
      decide +kernel
    have hloss : (compute [windfall] [] 100 {}).grossLossUsd.isFinite = true := by decide +kernel
    rintro (h | h)
    · exact hinfinity (h ▸ hprofit)
    · exact hinfinity (h ▸ hloss)
  · have hprofit : ¬ (compute [windfall, windfall] [] 100 {}).grossProfitUsd.isFinite = true := by
      decide +kernel
    have hloss : (compute [windfall, windfall] [] 100 {}).grossLossUsd.isFinite = true := by
      decide +kernel
    rcases htwo with h | h | h
    · exact absurd h.grossProfitUsd hprofit
    · exact h
    · exact absurd (h ▸ hloss) hinfinity

/-- Finite trades do not make all figures finite. -/
theorem not_all_isFinite :
    ¬ ∀ (trades : List Trade) (equity : List BalancePoint) (initial : Float) (robust : RobustScore),
      trades.length < 2 ^ 64 → (compute trades equity initial robust).IsFinite := by
  intro h
  have hprofit := (h [windfall, windfall] [] 100 {} (by decide)).grossProfitUsd
  exact absurd hprofit (by decide +kernel)

end Metrics
end Backtest
