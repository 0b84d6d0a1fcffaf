import Backtest.Indicator.Ema
import Backtest.Indicator.Sma
import Backtest.Number.Binary64

/-!
# Moving averages

Either of the two averages behind one interface: new, updated by a close, and asked for its value.
-/
namespace Backtest

/-- The kinds of moving averages. -/
inductive AverageKind where
  | exponential
  | simple
deriving Repr, DecidableEq

namespace AverageKind

/-- The name of a kind. -/
def name : AverageKind → String
  | exponential => "ema"
  | simple => "sma"

/-- Both kinds. -/
def all : List AverageKind := [exponential, simple]

/-- The kind with exactly this name. -/
def named? (s : String) : Option AverageKind := all.find? (·.name == s)

/-- The kind with a name, in any case. -/
def ofName? (name : String) : Option AverageKind :=
  match String.ofList (name.toList.map Char.toLower) with
  | "ema" => some exponential
  | "sma" => some simple
  | _ => none

end AverageKind

/-- A moving average of either kind. -/
inductive MovingAverage where
  | exponential (average : Ema)
  | simple (average : Sma)

namespace MovingAverage

/-- An average without closes. -/
def new : AverageKind → Nat → MovingAverage
  | .exponential, period => .exponential (.new period)
  | .simple, period => .simple (.new period)

/-- The period, at least one. -/
def period : MovingAverage → Nat
  | exponential a => a.period
  | simple a => a.period

/-- Takes one close. -/
def update (close : Float) : MovingAverage → MovingAverage
  | exponential a => .exponential (a.update close)
  | simple a => .simple (a.update close)

/-- The average, once it is warm. -/
def value? : MovingAverage → Option Float
  | exponential a => a.value?
  | simple a => a.value?

/-- The average after all of these closes. -/
def updateAll (a : MovingAverage) (closes : List Float) : MovingAverage :=
  closes.foldl (fun a close => a.update close) a

/-- The value after each close. -/
def values : MovingAverage → List Float → List (Option Float)
  | _, [] => []
  | a, close :: rest => (a.update close).value? :: values (a.update close) rest

/-- The value after each close, NaN while the average is cold. -/
def series (a : MovingAverage) (closes : List Float) : List Float :=
  (a.values closes).map fun v => v.getD Binary64.nan

end MovingAverage
end Backtest
