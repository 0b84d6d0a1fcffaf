import Backtest.Document.Record
import Backtest.Params.Set

/-!
# Axes

The candidate values of one parameter: a list, or a range from a least to a greatest value in equal
steps. A range of integers is exact. Any other range of numbers is taken in doubles, its count has a
small tolerance so that the greatest value is met, and its values are rounded to ten places. The
values of a range are computed on demand.
-/
namespace Backtest

/-- What is wrong with a range. -/
inductive RangeFault where
  | notNumeric
  | stepNotPositive
  | minAboveMax
deriving Repr, DecidableEq

/-- The wording of a fault. -/
def RangeFault.text : RangeFault → String
  | notNumeric => "min, max and step must be numeric"
  | stepNotPositive => "step must be > 0"
  | minAboveMax => "min must be <= max"

/-- Why a parameter space was refused. -/
inductive AxisError where
  | emptyAxis (name : String)
  | invalidRange (name : String) (fault : RangeFault)
  | axisTooLarge (name : String) (count : Nat)
deriving Repr, DecidableEq

/-- How many values a range may have. -/
def maxAxisValues : Nat := 4294967295

/-- The wording of a refusal. -/
def AxisError.message : AxisError → String
  | emptyAxis name => s!"parameter `{name}` has no candidate values"
  | invalidRange name fault => s!"parameter `{name}` range is invalid: " ++ fault.text
  | axisTooLarge name count =>
    s!"parameter `{name}` range has {count} values, exceeding the per-axis limit of {maxAxisValues}"

/-- The candidate values of a parameter as they are written down. -/
inductive ParamChoices where
  | values (values : List ParamValue)
  | range (min max step : ParamValue)

namespace ParamChoices

/-- The values as a document. -/
def toDocument : ParamChoices → Document
  | values vs => .list (vs.map ParamValue.toDocument)
  | range min max step =>
    .table [("min", min.toDocument), ("max", max.toDocument), ("step", step.toDocument)]

/-- The values of a document: a list, or a table of the ends and the step. -/
def ofDocument? : Document → Option ParamChoices
  | .list ds => (ds.mapM ParamValue.ofDocument?).map values
  | .table entries => do
    let r ← Record.ofDocument? ["min", "max", "step"] (.table entries)
    some (range (← r.required "min" ParamValue.ofDocument?)
      (← r.required "max" ParamValue.ofDocument?) (← r.required "step" ParamValue.ofDocument?))
  | _ => none

end ParamChoices

/-- The candidate values of one parameter by their place. -/
inductive Axis where
  | list (values : List ParamValue)
  | ints (start step : Int64) (length : Nat)
  | floats (start step : Float) (length : Nat)

namespace Axis

/-- How many values there are. -/
def length : Axis → Nat
  | list vs => vs.length
  | ints _ _ n => n
  | floats _ _ n => n

/-- A double rounded to ten places, where that is finite. -/
def roundTenPlaces (x : Float) : Float :=
  let rounded := Binary64.round (x * 1e10) / 1e10
  if rounded.isFinite then rounded else x

/-- The value at a place below the length. -/
def nth (a : Axis) (i : Nat) : ParamValue :=
  match a with
  | list vs => vs.getD i (.bool false)
  | ints start step _ => .int (Int64.ofInt (start.toInt + step.toInt * i))
  | floats start step _ => .float (roundTenPlaces (start + step * Float.ofNat i))

/-- The values in order. -/
def values (a : Axis) : List ParamValue := (List.range a.length).map a.nth

/-- The axis of a range of integers. -/
def ofInts (name : String) (low high step : Int64) : Except AxisError Axis :=
  if step.toInt ≤ 0 then .error (.invalidRange name .stepNotPositive)
  else if high.toInt < low.toInt then .error (.invalidRange name .minAboveMax)
  else
    let count := ((high.toInt - low.toInt) / step.toInt + 1).toNat
    if maxAxisValues < count then .error (.axisTooLarge name count) else .ok (ints low step count)

/-- The count of values of a range of doubles, at most the greatest count of 128 bits; a count that
is not finite is that one. -/
def floatCount (low high step : Float) : Nat :=
  let greatest := 340282366920938463463374607431768211455
  match Binary64.truncate? (Binary64.floor ((high - low) / step + 1e-9)) with
  | some n => min (n.toNat + 1) greatest
  | none => greatest

/-- The axis of a range of doubles. -/
def ofFloats (name : String) (low high step : Float) : Except AxisError Axis :=
  if ¬(step.isFinite ∧ 0 < step) then .error (.invalidRange name .stepNotPositive)
  else if ¬(low.isFinite ∧ high.isFinite) ∨ high < low then
    .error (.invalidRange name .minAboveMax)
  else
    let count := floatCount low high step
    if maxAxisValues < count then .error (.axisTooLarge name count)
    else .ok (floats low step count)

/-- The axis of a range. -/
def ofRange (name : String) (low high step : ParamValue) : Except AxisError Axis :=
  match low, high, step with
  | .int l, .int h, .int s => ofInts name l h s
  | _, _, _ =>
    match low.float?, high.float?, step.float? with
    | some l, some h, some s => ofFloats name l h s
    | _, _, _ => .error (.invalidRange name .notNumeric)

/-- The axis of the candidate values of a parameter. -/
def ofParamRange (name : String) : ParamChoices → Except AxisError Axis
  | .values vs => if vs.isEmpty then .error (.emptyAxis name) else .ok (list vs)
  | .range low high step => ofRange name low high step

end Axis
end Backtest
