/-!
# Drawdown

The largest decline of a curve from its running peak, as a percentage of the peak. Only peaks above
zero count. The definition takes any kind of number, so that exact arithmetic can be compared with
doubles.
-/
namespace Backtest.Drawdown

variable {α : Type} [OfNat α 0] [OfNat α 100] [LT α] [DecidableLT α] [Sub α] [Mul α] [Div α]

/-- The running peak and the largest decline after one more balance. -/
def step (s : α × α) (balance : α) : α × α :=
  let peak := if s.1 < balance then balance else s.1
  let drop := (peak - balance) / peak * 100
  (peak, if 0 < peak ∧ s.2 < drop then drop else s.2)

/-- The largest decline of a curve. -/
def maximum (curve : List α) : α := (curve.foldl step (0, 0)).2

end Backtest.Drawdown
