/-!
# Exponential moving average

The average is seeded with the mean of its first `period` closes and then moves toward each close by
the share `2 / (period + 1)`.
-/
namespace Backtest

/-- How far the average has come: the closes of the seed and their sum, or a value. -/
inductive EmaPhase where
  | seeding (seen : Nat) (sum : Float)
  | running (value : Float)

/-- An exponential moving average. -/
structure Ema where
  period : Nat
  phase : EmaPhase

namespace Ema

/-- An average without closes; a period of zero counts as one. -/
def new (period : Nat) : Ema := ⟨max period 1, .seeding 0 0⟩

/-- The share of a new close. -/
def weight (e : Ema) : Float := 2 / (Float.ofNat e.period + 1)

/-- The value moved toward a close. -/
def blend (weight value close : Float) : Float := weight * close + (1 - weight) * value

/-- The average, once its seed is complete. -/
def value? (e : Ema) : Option Float :=
  match e.phase with
  | .seeding _ _ => none
  | .running value => some value

/-- Takes one close. -/
def update (e : Ema) (close : Float) : Ema :=
  match e.phase with
  | .seeding seen sum =>
    let sum := sum + close
    if seen + 1 = e.period then { e with phase := .running (sum / Float.ofNat e.period) }
    else { e with phase := .seeding (seen + 1) sum }
  | .running value => { e with phase := .running (blend e.weight value close) }

end Ema
end Backtest
