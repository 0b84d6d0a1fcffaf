import Backtest.Document.Record
import Backtest.Strategy.Params
import Backtest.Time.Writer

/-!
# Account settings

What a simulation assumes about the account: the balance it starts from, leverage, the fee on each
side of a trade, and the share of the balance that one position takes.
-/
namespace Backtest

/-- Which setting is out of range. -/
inductive SettingsFault where
  | initialBalance
  | leverage
  | feeRate
  | positionFraction
deriving Repr, DecidableEq

/-- The wording of a fault. -/
def SettingsFault.text : SettingsFault → String
  | initialBalance => "initial_balance must be > 0"
  | leverage => "leverage must be > 0"
  | feeRate => "fee_rate must be >= 0"
  | positionFraction => "position_fraction must be in (0, 1]"

/-- Why a simulation was refused. -/
inductive SimulationError where
  | invalidPrice (index : Nat) (openTime : Instant)
  | params (error : ParamError)
  | settings (fault : SettingsFault)
deriving DecidableEq

/-- The wording of a refusal. -/
def SimulationError.message : SimulationError → String
  | invalidPrice index openTime =>
    s!"non-finite or non-positive price at index {index} (" ++ openTime.messageText ++ ")"
  | params _ => "invalid strategy parameters"
  | settings fault => "invalid simulation settings: " ++ fault.text

/-- Settings of the account. -/
structure AccountSettings where
  initialBalance : Float := 10000
  leverage : Float := 1
  feeRate : Float := 0.0004
  positionFraction : Float := 1
  /-- Whether the last candle closes an open position. -/
  closeAtEnd : Bool := true

namespace AccountSettings

/-- The first setting out of range. -/
def fault? (s : AccountSettings) : Option SettingsFault :=
  if ¬(s.initialBalance.isFinite ∧ 0 < s.initialBalance) then some .initialBalance
  else if ¬(s.leverage.isFinite ∧ 0 < s.leverage) then some .leverage
  else if ¬(s.feeRate.isFinite ∧ 0 ≤ s.feeRate) then some .feeRate
  else if ¬(0 < s.positionFraction ∧ s.positionFraction ≤ 1) then some .positionFraction
  else none

/-- Checks that every setting is in range. -/
def validate (s : AccountSettings) : Except SimulationError Unit :=
  match s.fault? with
  | some f => .error (.settings f)
  | none => .ok ()

/-- The settings as a document. -/
def toDocument (s : AccountSettings) : Document :=
  .table [("initial_balance", .real s.initialBalance), ("leverage", .real s.leverage),
    ("fee_rate", .real s.feeRate), ("position_fraction", .real s.positionFraction),
    ("close_at_end", .bool s.closeAtEnd)]

/-- The settings of a document; absent fields have their defaults. -/
def ofDocument? (d : Document) : Option AccountSettings := do
  let r ← Record.ofDocument?
    ["initial_balance", "leverage", "fee_rate", "position_fraction", "close_at_end"] d
  let s : AccountSettings := {}
  some {
    initialBalance := ← r.defaulted "initial_balance" s.initialBalance Document.real?
    leverage := ← r.defaulted "leverage" s.leverage Document.real?
    feeRate := ← r.defaulted "fee_rate" s.feeRate Document.real?
    positionFraction := ← r.defaulted "position_fraction" s.positionFraction Document.real?
    closeAtEnd := ← r.defaulted "close_at_end" s.closeAtEnd Document.bool? }

end AccountSettings
end Backtest
