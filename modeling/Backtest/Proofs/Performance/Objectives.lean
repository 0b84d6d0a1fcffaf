import Backtest.Performance.Objective
import Backtest.Proofs.Number.Arithmetic

/-!
# The values of objectives

Every objective of a replay is a number. Where it is zero it can have the wrong sign: a sum of no
profits is the negative zero, and so is its quotient by any losses. Besides the profit factor of
losses alone, only the ratio of mean and deviation can be the negative zero, where a quotient is too
small for a double. A share of trades has a positive sign, and a relative change is never rounded to
zero.

## Main definitions

* `Objective.isNaN_extract` — objectives are numbers.
* `Objective.extract_profitFactor_eq_negZero_iff` — when the profit factor is the negative zero.
* `Objective.mayBeNegZero_of_extract` — where else that can be.
-/
namespace Backtest

namespace Statistics
open Binary64

theorem isNaN_orZero (x : Float) : (orZero x).isNaN = false := by
  rw [orZero]
  split
  · exact isNaN_of_isFinite ‹_›
  · decide +kernel

theorem orZero_ne_negZero {x : Float} (h : x ≠ -0.0) : orZero x ≠ -0.0 := by
  rw [orZero]
  split
  · exact h
  · exact fun h0 => absurd (congrArg Float.toBits h0) (by decide +kernel)

/-- Doubles above zero add up to one, and nothing to the negative zero. -/
theorem sum_pos {xs : List Float} (hxs : ∀ x ∈ xs, 0 < x) (hne : xs ≠ []) : 0 < sum xs := by
  have hfold : ∀ (ys : List Float) (acc : Float), (∀ y ∈ ys, 0 < y) → 0 < acc →
      0 < ys.foldl (· + ·) acc := by
    intro ys
    induction ys with
    | nil => exact fun acc _ hacc => hacc
    | cons y rest ih =>
      intro acc hys hacc
      obtain ⟨hy, hrest⟩ := List.forall_mem_cons.1 hys
      exact ih _ hrest (add_pos hacc hy)
  cases xs with
  | nil => exact absurd rfl hne
  | cons x rest =>
    obtain ⟨hx, hrest⟩ := List.forall_mem_cons.1 hxs
    exact hfold rest _ hrest (negZero_add_pos hx)

end Statistics

namespace Metrics
open Binary64 Statistics

variable {trades : List Trade}

theorem countP_isProfitable :
    trades.countP Trade.isProfitable =
      ((trades.map (·.pnlUsd)).filter fun p => decide (0 < p)).length := by
  rw [← List.countP_eq_length_filter, List.countP_map]
  rfl

theorem countP_losing :
    (trades.countP fun t => decide (t.pnlUsd < 0)) =
      (((trades.map (·.pnlUsd)).filter fun p => decide (p < 0)).map Float.abs).length := by
  rw [List.length_map, ← List.countP_eq_length_filter, List.countP_map]
  rfl

/-- Without a profit the sum of the profits is the negative zero. -/
theorem totalProfit_of_none (h : trades.countP Trade.isProfitable = 0) :
    totalProfit trades = -0.0 := by
  rw [countP_isProfitable, List.length_eq_zero_iff] at h
  rw [totalProfit, h]
  rfl

theorem totalProfit_pos (h : trades.countP Trade.isProfitable ≠ 0) : 0 < totalProfit trades := by
  rw [countP_isProfitable, ne_eq, List.length_eq_zero_iff] at h
  exact sum_pos (fun p hp => of_decide_eq_true (List.mem_filter.1 hp).2) h

theorem totalLoss_of_none (h : (trades.countP fun t => decide (t.pnlUsd < 0)) = 0) :
    totalLoss trades = -0.0 := by
  rw [countP_losing, List.length_eq_zero_iff] at h
  rw [totalLoss, h]
  rfl

theorem totalLoss_pos (h : (trades.countP fun t => decide (t.pnlUsd < 0)) ≠ 0) :
    0 < totalLoss trades := by
  rw [countP_losing, ne_eq, List.length_eq_zero_iff] at h
  refine sum_pos (fun p hp => ?_) h
  obtain ⟨q, hq, rfl⟩ := List.mem_map.1 hp
  exact abs_pos (of_decide_eq_true (List.mem_filter.1 hq).2)

theorem finite?_eq_some {x y : Float} (h : finite? x = some y) :
    x = y ∧ y.isNaN = false := by
  rw [finite?] at h
  split at h
  · rename_i hfinite
    cases h
    exact ⟨rfl, isNaN_of_isFinite hfinite⟩
  · cases h

theorem isNaN_profitRatio? {profit loss x : Float} (h : profitRatio? profit loss = some x) :
    x.isNaN = false := by
  rw [profitRatio?] at h
  split at h
  · cases h
  · exact (finite?_eq_some h).2

/-- Profits over losses are the negative zero for losses alone, and only for these. -/
theorem profitRatio?_eq_negZero_iff :
    profitRatio? (totalProfit trades) (totalLoss trades) = some (-0.0) ↔
      trades.countP Trade.isProfitable = 0 ∧
        (trades.countP fun t => decide (t.pnlUsd < 0)) ≠ 0 := by
  rw [profitRatio?]
  constructor
  · intro h
    split at h
    · cases h
    · rename_i hloss
      have hquotient := (finite?_eq_some h).1
      have hlosing : (trades.countP fun t => decide (t.pnlUsd < 0)) ≠ 0 := by
        intro hnone
        rw [totalLoss_of_none hnone] at hloss
        exact hloss (by decide +kernel)
      refine ⟨Classical.not_not.1 fun hprofit => ?_, hlosing⟩
      exact div_ne_negZero (pos_iff_reaches.1 (totalProfit_pos hprofit)).hasSign
        (pos_iff_reaches.1 (totalLoss_pos hlosing)).hasSign hquotient
  · rintro ⟨hprofit, hlosing⟩
    have hloss := totalLoss_pos hlosing
    rw [if_neg (not_le_zero hloss), totalProfit_of_none hprofit, negZero_div hloss]
    rfl

theorem returnPct_ne_negZero {initial : Float} (h : 0 < initial) (final : Float) :
    returnPct initial final ≠ -0.0 := by
  rw [returnPct, if_neg (not_le_zero h)]
  exact percentChange_ne_negZero h

/-- A share of trades is a double of positive sign. -/
theorem hasSign_winShare (h : trades.length < 2 ^ 64) :
    HasSign .positive (winShare trades).toModel.unpack := by
  rw [winShare]
  split
  · rw [unpack_zero]
    rfl
  · rename_i hne
    obtain ⟨m, e, hm, hlength⟩ :=
      exists_finite_ofNat (by simpa [List.isEmpty_iff] using hne) h
    rw [unpack_div, hlength]
    exact (hasSign_div_finite (hasSign_ofNat _)).overflowed

theorem score_ne_negZero (robust : RobustScore) {gain : Float} (h : gain ≠ -0.0)
    (drawdown : Float) (n : Nat) : robust.score gain drawdown n ≠ -0.0 :=
  sub_ne_negZero (sub_ne_negZero h _) _

end Metrics

namespace Objective
open Binary64 Statistics Metrics

variable {trades : List Trade} {equity : List BalancePoint} {initial : Float} {robust : RobustScore}

theorem isNaN_profitFactorCap : profitFactorCap.isNaN = false := by decide +kernel

/-- The profit factor that counts is the negative zero if the profit factor is. -/
theorem extract_profitFactor_eq_negZero_iff :
    profitFactor.extract (compute trades equity initial robust) = -0.0 ↔
      (compute trades equity initial robust).winningTrades = 0 ∧
        (compute trades equity initial robust).losingTrades ≠ 0 := by
  refine Iff.trans ?_ profitRatio?_eq_negZero_iff
  have hratio : (compute trades equity initial robust).profitFactor =
    profitRatio? (totalProfit trades) (totalLoss trades) := rfl
  rw [extract]
  cases hfactor : profitRatio? (totalProfit trades) (totalLoss trades) with
  | none =>
    simp only [hratio, hfactor, reduceCtorEq, iff_false]
    split <;> decide +kernel
  | some x =>
    simp only [hratio, hfactor, Option.some.injEq]
    rcases min_cases (isNaN_profitRatio? hfactor) isNaN_profitFactorCap with ⟨hle, hmin⟩ | ⟨-, hmin⟩
    · rw [hmin]
      -- The cap is above zero, so a ratio it cuts off is no zero.
      refine ⟨fun h => absurd h (by decide +kernel), fun h => ?_⟩
      rw [h] at hle
      exact absurd hle (by decide +kernel)
    · rw [hmin]

/-- The objective of a replay is a number. -/
theorem isNaN_extract (o : Objective) (h : trades.length < 2 ^ 64) :
    (o.extract (compute trades equity initial robust)).isNaN = false := by
  cases o with
  | sharpeLikeRatio => exact isNaN_orZero _
  | robustScore => exact isNaN_orZero _
  | totalReturnPct => exact isNaN_orZero _
  | winRate => exact isNaN_of_hasSign (hasSign_winShare h)
  | profitFactor =>
    rw [extract]
    split
    · rename_i x hx
      rcases min_cases (isNaN_profitRatio? hx) isNaN_profitFactorCap with ⟨-, hmin⟩ | ⟨-, hmin⟩
      · rw [hmin, isNaN_profitFactorCap]
      · rw [hmin, isNaN_profitRatio? hx]
    · split <;> decide +kernel

/-- An objective that can be the negative zero: a profit factor of losses alone, or the ratio of
mean and deviation of several trades. -/
def MayBeNegZero : Objective → Metrics → Prop
  | profitFactor, m => m.winningTrades = 0 ∧ m.losingTrades ≠ 0
  | sharpeLikeRatio, m => 2 ≤ m.totalTrades
  | _, _ => False

theorem mayBeNegZero_of_extract (hinitial : 0 < initial) (hlength : trades.length < 2 ^ 64)
    {o : Objective} (h : o.extract (compute trades equity initial robust) = -0.0) :
    o.MayBeNegZero (compute trades equity initial robust) := by
  have hgain : ∀ final, orZero (returnPct initial final) ≠ -0.0 :=
    fun final => orZero_ne_negZero (returnPct_ne_negZero hinitial final)
  cases o with
  | profitFactor => exact extract_profitFactor_eq_negZero_iff.1 h
  | winRate => exact absurd h (ne_negZero_of_hasSign (hasSign_winShare hlength))
  | totalReturnPct => exact absurd h (hgain _)
  | robustScore => exact absurd h (orZero_ne_negZero (score_ne_negZero robust (hgain _) _ _))
  | sharpeLikeRatio =>
    refine Nat.not_lt.1 fun hfew => orZero_ne_negZero ?_ h
    rw [sharpeLike, if_pos (.inl (by rw [List.length_map]; exact hfew))]
    decide +kernel

end Objective
end Backtest
