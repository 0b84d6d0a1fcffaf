import Backtest.WalkForward.Run

/-!
# Interrupted runs

A run looks before each window whether it was told to stop, and again with each candidate of a
search, so it can also be stopped between two windows or in the middle of one. It then keeps the
windows that it has. It fails where it gets no workers for a search. A run that nobody stops on the
way, or that was stopped before it began, is one of these.
-/
namespace Backtest

/-- What can come between a run and its end, by the number of windows done: it is told to stop
before the next one, or while a candidate of its search waits, or it gets no workers for the
search. -/
structure Interruption where
  beforeWindow : Nat → Bool
  duringSearch : Nat → Bool
  pools : Nat → WorkerPool := fun _ => .ready

/-- Stopped from the start, or never. -/
def Interruption.constant (cancelled : Bool) (pools : Nat → WorkerPool := fun _ => .ready) :
    Interruption :=
  ⟨fun _ => cancelled, fun _ => cancelled, pools⟩

namespace WalkForward

/-- Runs windows in order until one fails or the run is stopped; `completed` of them are done. -/
def runWindowsUntil (request : Request) (series : CandleSeries) (space : SearchSpace)
    (stop : Interruption) (total : Nat) : Nat → List Window → WindowsOutcome
  | _, [] => ⟨[], [], .ok .completed⟩
  | completed, window :: rest =>
    if stop.beforeWindow completed then ⟨[], [], .ok .cancelled⟩
    else
      match windowRecord request space window (stop.duringSearch completed) (stop.pools completed)
        (series.slice window.trainStart window.trainEnd)
        (series.slice window.testStart window.testEnd) with
      | .error e => ⟨[], [], .error e⟩
      | .ok none => ⟨[], [], .ok .cancelled⟩
      | .ok (some result) =>
        let after := runWindowsUntil request series space stop total (completed + 1) rest
        ⟨.windowCompleted window.index (completed + 1) total result.disqualified :: after.events,
          result :: after.windows, after.ending⟩

/-- Runs a request on a series until it is stopped. -/
def runUntil (request : Request) (series : CandleSeries) (stop : Interruption) : Report :=
  match request.checkedSpace with
  | .error e => failedReport (.request e)
  | .ok space =>
    match request.windows with
    | .error .outOfCalendar => ⟨[], .error (.schedule .outOfCalendar)⟩
    | .error e => failedReport (.schedule e)
    | .ok windows =>
      let total := windows.length
      let done := runWindowsUntil request series space stop total 0 windows
      match done.ending with
      | .error e => ⟨.started total :: done.events ++ [.finished .failed], .error e⟩
      | .ok status =>
        ⟨.started total :: done.events ++ [.finished status],
          .ok (result request total status done.windows)⟩

theorem runWindowsUntil_constant (request : Request) (series : CandleSeries) (space : SearchSpace)
    (cancelled : Bool) (pools : Nat → WorkerPool) (total completed : Nat) (ws : List Window) :
    runWindowsUntil request series space (.constant cancelled pools) total completed ws =
      runWindows request series space cancelled pools total completed ws := by
  induction ws generalizing completed with
  | nil => rfl
  | cons w rest ih =>
    rw [runWindowsUntil, runWindows, ih]
    rfl

/-- A run that is stopped from the start or never. -/
theorem runUntil_constant (request : Request) (series : CandleSeries) (cancelled : Bool)
    (pools : Nat → WorkerPool) :
    runUntil request series (.constant cancelled pools) = run request series cancelled pools := by
  simp only [runUntil, runWindowsUntil_constant]
  rfl

end WalkForward
end Backtest
