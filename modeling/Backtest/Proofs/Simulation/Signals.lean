import Backtest.Proofs.Indicator.Warmup
import Backtest.Proofs.Simulation.Step

/-!
# The averages of a simulation

The averages, and so the crossings, are a function of the closes alone: no position, balance or
setting reaches them. `Follows` says that a state has taken certain closes, every step takes one
more, and `crossOn_eq_crossAt` reads the crossing of a candle off the closes up to it.

## Main definitions

* `averageAt`, `crossAt` — averages and crossings by the index of the candle.
* `Follows` — a state has taken these closes.
* `slowPeriod_le_of_crossAt` — there is no crossing before the slow average is warm.
-/
namespace Backtest.Simulation

/-- The average after the candle at an index. -/
def averageAt (kind : AverageKind) (period : Nat) (closes : List Float) (k : Nat) : Option Float :=
  ((MovingAverage.new kind period).updateAll (closes.take (k + 1))).value?

/-- The crossing on the candle at an index: that of the averages on the candle before and on it. -/
def crossAt (params : CrossoverParams) (closes : List Float) : Nat → Option Cross
  | 0 => none
  | k + 1 =>
    Cross.between (averageAt params.averageKind params.fastPeriod closes k)
      (averageAt params.averageKind params.slowPeriod closes k)
      (averageAt params.averageKind params.fastPeriod closes (k + 1))
      (averageAt params.averageKind params.slowPeriod closes (k + 1))

theorem getElem?_closes {candles : List Candle} {k : Nat} {c : Candle} (hk : candles[k]? = some c) :
    (candles.map (·.close))[k]? = some c.close := by
  rw [List.getElem?_map, hk]
  rfl

theorem lt_length_closes {candles : List Candle} {k : Nat} {c : Candle}
    (hk : candles[k]? = some c) : k < (candles.map (·.close)).length :=
  (List.getElem?_eq_some_iff.1 (getElem?_closes hk)).1

/-- The averages and the trend of a state are those of the closes it has taken. -/
structure Follows (params : CrossoverParams) (closes : List Float) (s : SimulationState) :
    Prop where
  fast : s.fast = (MovingAverage.new params.averageKind params.fastPeriod).updateAll closes
  slow : s.slow = (MovingAverage.new params.averageKind params.slowPeriod).updateAll closes
  trend : s.trend = if params.trendEnabled then
    some ((Trend.new params.trendMultiplier params.trendPeriod).updateAll closes) else none
  prevFast : s.account.prevFast = s.fast.value?
  prevSlow : s.account.prevSlow = s.slow.value?

theorem follows_new (params : CrossoverParams) (settings : AccountSettings) :
    Follows params [] (.new params settings) where
  fast := rfl
  slow := rfl
  trend := rfl
  prevFast := by simp only [SimulationState.new, MovingAverage.value?_new]; rfl
  prevSlow := by simp only [SimulationState.new, MovingAverage.value?_new]; rfl

theorem follows_step {params : CrossoverParams} {closes : List Float} {s : SimulationState}
    (h : Follows params closes s) (candle : Candle) (ctx : CandleContext) :
    Follows params (closes ++ [candle.close]) (s.step candle ctx).1 where
  fast := by rw [SimulationState.fast_step, h.fast, MovingAverage.updateAll_concat]
  slow := by rw [SimulationState.slow_step, h.slow, MovingAverage.updateAll_concat]
  trend := by
    rw [SimulationState.trend_step, h.trend]
    split
    · simp only [Trend.updateAll, Option.map_some, List.foldl_append, List.foldl_cons,
        List.foldl_nil]
    · rfl
  prevFast := rfl
  prevSlow := rfl

/-- The candle that a state takes next crosses as the closes up to it say. -/
theorem crossOn_eq_crossAt {params : CrossoverParams} {closes : List Float} {s : SimulationState}
    {k : Nat} {close : Float} (h : Follows params (closes.take k) s)
    (hk : closes[k]? = some close) : s.crossOn close = crossAt params closes k := by
  have htake : closes.take (k + 1) = closes.take k ++ [close] := by
    rw [List.take_add_one, hk]; rfl
  rw [SimulationState.crossOn]
  rw [h.prevFast, h.prevSlow, h.fast, h.slow]
  cases k with
  | zero => simp only [List.take_zero, MovingAverage.updateAll, List.foldl_nil,
      MovingAverage.value?_new, Cross.between, crossAt]
  | succ j => rw [crossAt, averageAt, averageAt, averageAt, averageAt, htake,
      MovingAverage.updateAll_concat, MovingAverage.updateAll_concat]

/-- A crossing needs the slow average on the candle before, which takes a period of closes. -/
theorem slowPeriod_le_of_crossAt {params : CrossoverParams} {closes : List Float} {k : Nat}
    {cross : Cross} (h : crossAt params closes k = some cross) : params.slowPeriod ≤ k := by
  cases k with
  | zero => cases h
  | succ j =>
    have hwarm : (averageAt params.averageKind params.slowPeriod closes j).isSome := by
      cases hslow : averageAt params.averageKind params.slowPeriod closes j with
      | some value => rfl
      | none =>
        rw [crossAt, hslow] at h
        cases hfast : averageAt params.averageKind params.fastPeriod closes j <;>
          rw [hfast] at h <;> cases h
    rw [averageAt, MovingAverage.isSome_value?_updateAll_new, List.length_take] at hwarm
    omega

end Backtest.Simulation
