import Backtest.Time.Writer

/-!
# Schedules

Cuts a range of time into windows of training and test. A rolling window moves its training start
forward by the step, an expanding one keeps it and grows. The test starts where the training ends
and is clipped at the end of the range. The last window is the first whose test reaches the end, or
the one before the first whose test would start there.
-/
namespace Backtest

/-- How the training part moves. -/
inductive TrainingMode where
  | rolling
  | expanding
deriving Repr, DecidableEq

namespace TrainingMode

/-- The name of a type. -/
def name : TrainingMode → String
  | rolling => "rolling"
  | expanding => "expanding"

/-- The type with a name. -/
def ofName? : String → Option TrainingMode
  | "rolling" => some rolling
  | "expanding" => some expanding
  | _ => none

end TrainingMode

/-- One pair of training and test; the ends are excluded. -/
structure Window where
  index : Nat
  trainStart : Instant
  trainEnd : Instant
  testStart : Instant
  testEnd : Instant
deriving Repr, DecidableEq

/-- The periods of a schedule. -/
inductive Period where
  | training
  | test
  | step
deriving Repr, DecidableEq

/-- The name of a period in messages. -/
def Period.name : Period → String
  | training => "training period"
  | test => "test period"
  | step => "step size"

/-- Why there is no schedule. The last case is a date outside the calendar. -/
inductive ScheduleError where
  | nonPositivePeriod (period : Period)
  | emptyRange (start stop : Instant)
  | outOfCalendar
deriving Repr, DecidableEq

/-- The wording of a failure. -/
def ScheduleError.message : ScheduleError → String
  | nonPositivePeriod period => period.name ++ " must be positive"
  | emptyRange start stop =>
    "range end " ++ stop.messageText ++ " is not after start " ++ start.messageText
  | outOfCalendar => "date out of range"

/-- What a schedule is made from. -/
structure Schedule where
  start : Instant
  stop : Instant
  training : Span
  test : Span
  step : Span
  windowType : TrainingMode
deriving Repr, DecidableEq

namespace Schedule

/-- A specification in whole days; absent when a period is longer than any span. -/
def ofDays? (start stop : Instant) (training test step : Int) (windowType : TrainingMode) :
    Option Schedule := do
  some ⟨start, stop, ← Span.ofDays? training, ← Span.ofDays? test, ← Span.ofDays? step, windowType⟩

/-- Start and end of the training part of a window. -/
def trainingPart (spec : Schedule) (index : Nat) : Option (Instant × Instant) :=
  let offset := spec.step.times index
  match spec.windowType with
  | .rolling => do
    let start ← spec.start.add? offset
    some (start, ← start.add? spec.training)
  | .expanding => do
    let first ← spec.start.add? spec.training
    some (spec.start, ← first.add? offset)

/-- The windows from `index` on, at most `fuel` of them. -/
def windowsFrom (spec : Schedule) : Nat → Nat → Except ScheduleError (List Window)
  | 0, _ => .ok []
  | fuel + 1, index =>
    match spec.trainingPart index with
    | none => .error .outOfCalendar
    | some (trainStart, trainEnd) =>
      if spec.stop ≤ trainEnd then .ok []
      else
        match trainEnd.add? spec.test with
        | none => .error .outOfCalendar
        | some fullEnd => do
          let testEnd := Instant.min fullEnd spec.stop
          let window : Window := ⟨index, trainStart, trainEnd, trainEnd, testEnd⟩
          if spec.stop ≤ fullEnd then return [window]
          else return window :: (← windowsFrom spec fuel (index + 1))

/-- More windows than a schedule can have: one for each nanosecond step between its ends. -/
def windowBound (spec : Schedule) : Nat :=
  ((spec.start.spanTo spec.stop).nanos / spec.step.nanos).toNat + 3

/-- The first period that is not positive. -/
def nonPositive? (spec : Schedule) : Option Period :=
  if spec.training.nanos ≤ 0 then some .training
  else if spec.test.nanos ≤ 0 then some .test
  else if spec.step.nanos ≤ 0 then some .step
  else none

/-- The windows in order. There are none when training and test do not fit into the range. -/
def windows (spec : Schedule) : Except ScheduleError (List Window) :=
  match spec.nonPositive? with
  | some period => .error (.nonPositivePeriod period)
  | none =>
    if spec.stop ≤ spec.start then .error (.emptyRange spec.start spec.stop)
    else
      match spec.training.add? spec.test with
      | none => .error .outOfCalendar
      | some both =>
        if (spec.start.spanTo spec.stop).nanos < both.nanos then .ok []
        else windowsFrom spec spec.windowBound 0

end Schedule
end Backtest
